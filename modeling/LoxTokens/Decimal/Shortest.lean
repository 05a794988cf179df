import LoxTokens.Decimal

/-!
# The shortest decimal of a double-precision number

Of all decimals that round to a number, the one with the fewest digits, and of those the one
nearest to the number.

- `Binary64.onGrid?` looks for such a decimal among the multiples of one power of ten, of which
  only the number's two neighbours matter
- `Binary64.shortest` tries the powers of ten from the coarsest on
-/

namespace LoxTokens

namespace Binary64

/-- Whether a decimal rounds to the magnitude of this number. -/
def readsBack (x : Binary64) (d : Decimal) : Bool :=
  decide (d.toBinary64.magnitude = x.magnitude)

/-- The exact value of a finite number's magnitude.  A quantum is `5 ^ 1074` units of the
one-thousand-and-seventy-fourth decimal place. -/
def exactDecimal (x : Binary64) : Decimal where
  digits := x.quanta * Nat.pow 5 1074
  exponent := -1074

/-- The exponent of the least power of ten above a positive magnitude.  Raised by 324 places the
least magnitude exceeds one, so the digits before the point can be counted. -/
def pointPlace (x : Binary64) : Int :=
  (Nat.toDigits 10 (x.quanta * Nat.pow 10 324 / quantaPerOne)).length - 324

/-- Of the two multiples of `10 ^ exponent` around the magnitude, the one that reads back; if
both do, the nearer one, and the greater one if they are equally near. -/
def onGrid? (x : Binary64) (exponent : Int) : Option Decimal :=
  let numerator := x.quanta * Nat.pow 10 (-exponent).toNat
  let denominator := quantaPerOne * Nat.pow 10 exponent.toNat
  let below : Decimal := { digits := numerator / denominator, exponent := exponent }
  let above : Decimal := { digits := numerator / denominator + 1, exponent := exponent }
  if x.readsBack below then
    if x.readsBack above && denominator ≤ 2 * (numerator % denominator) then some above
    else some below
  else if x.readsBack above then some above
  else none

/-- The decimal of fewest digits that reads back as this finite positive magnitude.  Seventeen
digits are enough for every number; the exact value stands behind them. -/
def shortest (x : Binary64) : Decimal :=
  let place := x.pointPlace
  ((List.range 18).findSome? fun (count : Nat) => x.onGrid? (place - count)).getD x.exactDecimal

end Binary64

end LoxTokens
