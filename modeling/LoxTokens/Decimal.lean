import LoxTokens.Binary64

/-!
# Decimal numerals

A decimal is a natural number of units of a power of ten.  This module reads one from a numeral,
rounds it to the nearest double-precision number, and writes it in the two usual layouts.

- `Decimal.ofNumeral` reads digits with at most one point among them
- `Decimal.toBinary64` is the correctly rounded value
- `Decimal.positional` and `Decimal.scientific` are the layouts
-/

namespace LoxTokens

/-- The number `digits * 10 ^ exponent`. -/
structure Decimal where
  digits : Nat
  exponent : Int
  deriving DecidableEq

namespace Decimal

/-- Reads a numeral: the digits before and after the point form one natural number, of which
each digit after the point takes a factor of ten away. -/
def ofNumeral (numeral : List Char) : Decimal :=
  let whole := numeral.takeWhile (· != '.')
  let fraction := (numeral.dropWhile (· != '.')).tail
  { digits := Nat.ofDigitChars 10 (whole ++ fraction) 0
    exponent := -(fraction.length : Int) }

/-- The double-precision number nearest to this decimal, a tie going to the even one. -/
def toBinary64 (d : Decimal) : Binary64 :=
  .ofRatio (d.digits * Nat.pow 10 d.exponent.toNat) (Nat.pow 10 (-d.exponent).toNat)

/-- The layout without an exponent, which always has a point and a digit on either side of it. -/
def positional (d : Decimal) : List Char :=
  let places := (-d.exponent).toNat
  let scaled := d.digits * Nat.pow 10 d.exponent.toNat
  let one := Nat.pow 10 places
  Nat.toDigits 10 (scaled / one) ++ '.' :: (Nat.toDigits 10 (scaled % one)).leftpad places '0'

/-- The layout with an exponent: one digit, the point and the other digits if there are any,
then `e` and the power of ten that the first digit stands for. -/
def scientific (d : Decimal) : List Char :=
  match Nat.toDigits 10 d.digits with
  | [] => []
  | first :: others =>
    let fraction := if others.isEmpty then [] else '.' :: others
    first :: fraction ++ 'e' :: (d.exponent + others.length).repr.toList

end Decimal

end LoxTokens
