/-!
# Binary64 numbers

A double-precision number is kept as its sign and the index of its magnitude, so that every
question about it is settled in natural numbers.

- `Binary64.quanta` is the exact value of a finite magnitude, counted in units of `2 ^ (-1074)`
- `Binary64.ofRatio` is the number nearest to a fraction, a tie going to the even one
- `==` compares two numbers by value
-/

namespace LoxTokens

/-- A double-precision number: its sign bit, and the sixty-three bits below it read as a number.

Those bits number the magnitudes in increasing order: zero is the first, then come the
subnormal and the normal ones, then infinity, and whatever follows is not a number. -/
structure Binary64 where
  negative : Bool
  magnitude : Fin (Nat.pow 2 63)
  deriving DecidableEq

namespace Binary64

/-- How many quanta make one: a quantum is the least positive magnitude. -/
def quantaPerOne : Nat := Nat.pow 2 1074

/-- The index of infinity, one past the greatest finite magnitude. -/
def infinityIndex : Nat := 2047 * Nat.pow 2 52

/-- The value of the finite magnitude of this index, in quanta.

The upper eleven bits are the exponent.  Under exponent zero the lower fifty-two bits are the
value; under any other exponent they follow a leading one, and each further exponent doubles. -/
def indexQuanta (index : Nat) : Nat :=
  let step := Nat.pow 2 52
  if index / step = 0 then index
  else (step + index % step) * Nat.pow 2 (index / step - 1)

def isNaN (x : Binary64) : Bool :=
  decide (infinityIndex < x.magnitude.val)

def isInfinite (x : Binary64) : Bool :=
  decide (x.magnitude.val = infinityIndex)

def isFinite (x : Binary64) : Bool :=
  decide (x.magnitude.val < infinityIndex)

/-- The magnitude of a finite number, in quanta. -/
def quanta (x : Binary64) : Nat :=
  indexQuanta x.magnitude.val

/-! ## Bit patterns -/

/-- The number with this bit pattern. -/
def ofBits (word : UInt64) : Binary64 where
  negative := decide (Nat.pow 2 63 ≤ word.toNat)
  magnitude := ⟨word.toNat % Nat.pow 2 63, Nat.mod_lt _ (by decide)⟩

/-- The bit pattern of this number: the sign bit on top of the magnitude's index. -/
def toBits (x : Binary64) : UInt64 :=
  .ofNat ((if x.negative then Nat.pow 2 63 else 0) + x.magnitude.val)

/-! ## Comparison -/

/-- Equality of values: a NaN differs from every number, itself included, and the two zeros
are equal. -/
def sameValue (x y : Binary64) : Bool :=
  !x.isNaN && !y.isNaN &&
    (decide (x = y) || decide (x.magnitude.val = 0 ∧ y.magnitude.val = 0))

instance : BEq Binary64 := ⟨sameValue⟩

/-! ## Rounding -/

/-- The natural number nearest to `numerator / denominator`, of two equally near the even one. -/
def roundQuotient (numerator denominator : Nat) : Nat :=
  let whole := numerator / denominator
  let remainder := numerator % denominator
  if 2 * remainder < denominator ∨ 2 * remainder = denominator ∧ whole % 2 = 0 then whole
  else whole + 1

/-- The index of the magnitude nearest to `numerator / denominator`, were there no greatest one.

The value is first counted in quanta.  Dividing it by `2 ^ shift` leaves at most fifty-three
bits before the point; rounding those gives a significand, and since a significand that
overflows into the next exponent overflows in the index too, the two are added. -/
def nearestIndex (numerator denominator : Nat) : Nat :=
  let scaled := numerator * quantaPerOne
  let shift := (scaled / denominator).log2 - 52
  shift * Nat.pow 2 52 + roundQuotient scaled (denominator * Nat.pow 2 shift)

/-- The number nearest to `numerator / denominator`, a tie going to the even significand, and
infinity from half a step past the greatest finite number on. -/
def ofRatio (numerator denominator : Nat) : Binary64 where
  negative := false
  magnitude := ⟨min (nearestIndex numerator denominator) infinityIndex,
    Nat.lt_of_le_of_lt (Nat.min_le_right ..) (by decide)⟩

end Binary64

end LoxTokens
