import HpGl.Decimal.Nearest

/-!
# Numbers in JSON

A number with a fraction or an exponent is read in the arithmetic of doubles. Its digits count as
far as 64 bits hold their value. That value becomes the nearest double, which a power of ten then
multiplies or divides; each of these steps rounds. A number of at most fifteen digits, with a power
of ten up to the 22nd, is read as the double nearest to it, a longer one perhaps as a neighbour.

* `takeWord`: the digits that count.
* `cutDecimal`: what they stand for.
* `scaled`: the double.
-/

namespace HpGl.Json

/-- Appends digits to a value while 64 bits hold it. Yields the value and the digits left over. -/
def takeWord : Nat → List Char → Nat × List Char
  | n, [] => (n, [])
  | n, c :: cs =>
    let m := Nat.ofDigitChars 10 [c] n
    if m < 0x10000000000000000 then takeWord m cs else (n, c :: cs)

/-- The decimal written `whole.fraction` times `10 ^ exponent`, cut to digits that 64 bits hold. A
digit left over in the integer part counts as a zero, one in the fraction not at all. -/
def cutDecimal (whole fraction : List Char) (exponent : Int) : Decimal :=
  let (n, zeros) := takeWord 0 whole
  let (m, dropped) := takeWord n fraction
  ⟨m, exponent + zeros.length - (fraction.length - dropped.length : Nat)⟩

/-- The double nearest to a power of ten. -/
def powerOfTen (n : Nat) : Float := Decimal.toFloat false ⟨1, n⟩

/-- The digits as a double, times or over a power of ten. No power beyond the 308th is a double: a
smaller quotient takes two divisions, and one below the reach of both is zero. -/
def scaled (d : Decimal) : Float :=
  let x := Decimal.toFloat false ⟨d.digits, 0⟩
  if d.digits = 0 then x
  else if 308 < d.exponent then infiniteFloat false
  else if 0 ≤ d.exponent then x * powerOfTen d.exponent.toNat
  else if -308 ≤ d.exponent then x / powerOfTen (-d.exponent).toNat
  else if -616 ≤ d.exponent then x / powerOfTen 308 / powerOfTen (-d.exponent - 308).toNat
  else 0

end HpGl.Json
