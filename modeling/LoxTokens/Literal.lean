import LoxTokens.Decimal.Shortest

/-!
# Literals

The value that a token carries besides its text, and how that value is displayed.

- `Binary64.display` writes a number: every magnitude from ten to the sixteenth on with an
  exponent, a whole number with one zero after the point, any other with its shortest digits
- `Literal.display` writes a literal
-/

namespace LoxTokens

namespace Binary64

/-- The text of a magnitude that is not NaN. -/
def displayMagnitude (x : Binary64) : List Char :=
  if x.isInfinite then ['i', 'n', 'f']
  else if Nat.pow 10 16 * quantaPerOne ≤ x.quanta then x.shortest.scientific
  else if x.quanta % quantaPerOne = 0 then
    Decimal.positional { digits := x.quanta / quantaPerOne, exponent := 0 }
  else x.shortest.positional

/-- The text of a number.  The sign bit shows on every number, zero included, but on no NaN. -/
def display (x : Binary64) : String :=
  if x.isNaN then "NaN"
  else .ofList (if x.negative then '-' :: x.displayMagnitude else x.displayMagnitude)

end Binary64

/-- The value of a token: only numbers and texts have one. -/
inductive Literal where
  | absent
  | number (value : Binary64)
  | text (value : String)
  deriving DecidableEq

namespace Literal

/-- Numbers are compared by value, so a NaN literal differs from itself. -/
def sameValue : Literal → Literal → Bool
  | absent, absent => true
  | number x, number y => x == y
  | text s, text t => s == t
  | _, _ => false

instance : BEq Literal := ⟨sameValue⟩

/-- The text a literal is displayed as; a text stands as it is, without quotes. -/
def display : Literal → String
  | absent => "null"
  | number value => value.display
  | text value => value

end Literal

end LoxTokens
