/-!
# Decimals

A decimal is `digits · 10 ^ exponent`.

* `Decimal.ofDigits`: the decimal that an integer part, a fraction and an exponent stand for.
* `Decimal.strip`: the same value with no zero at the end of its digits.
* `Decimal.leading`: the exponent of the leading digit.
-/

namespace HpGl

/-- The number `digits * 10 ^ exponent`. -/
structure Decimal where
  digits : Nat
  exponent : Int
  deriving DecidableEq, Repr

namespace Decimal

/-- The digits of a natural number, most significant first; `0` has one digit. -/
def digitsOf (n : Nat) : List Char := Nat.toDigits 10 n

/-- Number of digits of a natural number, `0` having none. -/
def digitCount (n : Nat) : Nat := if n = 0 then 0 else (digitsOf n).length

/-- The value of a run of decimal digits. -/
def valueOf (ds : List Char) : Nat := Nat.ofDigitChars 10 ds 0

/-- The decimal written `whole.fraction` times `10 ^ exponent`. -/
def ofDigits (whole fraction : List Char) (exponent : Int) : Decimal :=
  ⟨valueOf (whole ++ fraction), exponent - fraction.length⟩

/-- Moves up to `fuel` zeros from the end of the digits into the exponent. -/
def stripUpTo : Nat → Decimal → Decimal
  | 0, d => d
  | fuel + 1, d =>
    if d.digits % 10 = 0 then stripUpTo fuel ⟨d.digits / 10, d.exponent + 1⟩ else d

/-- The same value with no zero at the end of its digits. -/
def strip (d : Decimal) : Decimal :=
  if d.digits = 0 then ⟨0, 0⟩ else stripUpTo (digitCount d.digits) d

/-- Exponent of the leading digit, that of `0` being `0`. -/
def leading (d : Decimal) : Int :=
  if d.digits = 0 then 0 else d.exponent + digitCount d.digits - 1

end Decimal

/-- The digits of an integer, after a minus sign when it is negative. -/
def integerChars (n : Int) : List Char :=
  if n < 0 then '-' :: Decimal.digitsOf n.natAbs else Decimal.digitsOf n.natAbs

end HpGl
