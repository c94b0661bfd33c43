import HpGl.Decimal.Basic
import HpGl.Decimal.Binary

/-!
# Reading decimals

A decimal is read as the double nearest to it, a tie going to the even mantissa; above the largest
double and half its last place it is infinite.

* `roundHalfEven`: a quotient rounded to an integer.
* `nearestBits`: the bits of the double nearest to a quotient.
* `Decimal.toFloat`: the double nearest to a signed decimal.
* `readFloat?`: the text of a number, an infinity or a NaN.
-/

namespace HpGl

/-- The quotient rounded to the nearest integer, halves to the even one. -/
def roundHalfEven (num den : Nat) : Nat :=
  let q := num / den
  match compare (2 * (num % den)) den with
  | .lt => q
  | .eq => q + q % 2
  | .gt => q + 1

/-- The greatest `l` with `2 ^ l ≤ num / den`. -/
def floorLog2 (num den : Nat) : Int :=
  let l : Int := num.log2 - den.log2
  if num * Nat.pow 2 (-l).toNat < den * Nat.pow 2 l.toNat then l - 1 else l

/-- Bits of the double nearest to `num / den`. A mantissa that is rounded up to `2 ^ 53` carries
into the exponent field, which is the next double. -/
def nearestBits (num den : Nat) : Nat :=
  if num = 0 then 0
  else
    let q := max (-1074) (floorLog2 num den - 52)
    let m := roundHalfEven (num * Nat.pow 2 (-q).toNat) (den * Nat.pow 2 q.toNat)
    min ((q + 1074).toNat * Binary.leadingBit + m) Binary.infinityBits

/-- The double with a sign and the bits of a magnitude. -/
def signedFloat (negative : Bool) (bits : Nat) : Float :=
  Float.ofBits (UInt64.ofNat (bits + if negative then Binary.signWeight else 0))

/-- An infinity. -/
def infiniteFloat (negative : Bool) : Float := signedFloat negative Binary.infinityBits

/-- A NaN. -/
def nanFloat : Float := signedFloat false (Binary.infinityBits + Binary.leadingBit / 2)

namespace Decimal

/-- Bits of the double nearest to a decimal. Decimals far outside the range of the doubles are
settled by their leading exponent. -/
def nearestBits (d : Decimal) : Nat :=
  if d.digits = 0 then 0
  else if 310 < d.leading then Binary.infinityBits
  else if d.leading < -330 then 0
  else HpGl.nearestBits (d.digits * Nat.pow 10 d.exponent.toNat) (Nat.pow 10 (-d.exponent).toNat)

/-- The double nearest to a signed decimal. -/
def toFloat (negative : Bool) (d : Decimal) : Float := signedFloat negative d.nearestBits

end Decimal

/-- A sign, when there is one, and what follows it. -/
def takeSign : List Char → Bool × List Char
  | '-' :: cs => (true, cs)
  | '+' :: cs => (false, cs)
  | cs => (false, cs)

/-- The digits at the head of a text, and what follows them. -/
def takeDigits (cs : List Char) : List Char × List Char := cs.span Char.isDigit

/-- An exponent that fills the text. -/
def readExponent? : List Char → Option Int
  | [] => some 0
  | c :: cs =>
    if c = 'e' ∨ c = 'E' then
      let (negative, cs) := takeSign cs
      let (ds, rest) := takeDigits cs
      if ds = [] ∨ rest ≠ [] then none
      else some (if negative then -(Decimal.valueOf ds : Int) else Decimal.valueOf ds)
    else none

/-- An unsigned decimal that fills the text: digits on one side of the point at least. -/
def readDecimal? (cs : List Char) : Option Decimal := do
  let (whole, rest) := takeDigits cs
  let (fraction, rest) := match rest with
    | '.' :: rest => takeDigits rest
    | rest => ([], rest)
  if whole = [] ∧ fraction = [] then none
  else return .ofDigits whole fraction (← readExponent? rest)

/-- A number as a person types it: a sign, then a decimal or one of the words `inf`, `infinity`
and `nan` in any case. -/
def readFloat? (s : String) : Option Float :=
  let (negative, cs) := takeSign s.toList
  let word := String.ofList (cs.map Char.toLower)
  if word = "inf" ∨ word = "infinity" then some (infiniteFloat negative)
  else if word = "nan" then some nanFloat
  else (readDecimal? cs).map (Decimal.toFloat negative)

end HpGl
