/-!
# Doubles as exact numbers

A finite double is `± m · 2 ^ q` with `m < 2 ^ 53`. Digits are chosen, decimals are read and
degrees are truncated on this form, in exact arithmetic.

* `Binary.ofFloat`: the sign, the mantissa and the exponent of a finite double.
* `Binary.numerator`, `Binary.denominator`: its magnitude as a quotient of naturals.
* `Binary.narrowBelow`: the double below is half as far away as the double above.
-/

namespace HpGl

/-- The number `± mantissa * 2 ^ exponent`. -/
structure Binary where
  negative : Bool
  mantissa : Nat
  exponent : Int
  deriving DecidableEq, Repr

namespace Binary

/-- Two to the power 52: the weight of the leading bit of a mantissa, and one step of the exponent
field. -/
abbrev leadingBit : Nat := 0x10000000000000

/-- Two to the power 63: the weight of the sign bit. -/
abbrev signWeight : Nat := 0x8000000000000000

/-- The bits of positive infinity; every larger pattern without the sign bit is a NaN. -/
def infinityBits : Nat := 0x7FF * leadingBit

/-- The sign bit, set for `-0` too. -/
def signBit (x : Float) : Bool := decide (signWeight ≤ x.toBits.toNat)

/-- The bits without the sign bit. They order the non-negative doubles as numbers. -/
def magnitudeBits (x : Float) : Nat := x.toBits.toNat % signWeight

/-- The magnitude with these bits: subnormal when the exponent field is `0`, else with the
implicit leading bit. -/
def ofMagnitudeBits (negative : Bool) (bits : Nat) : Binary :=
  if bits / leadingBit = 0 then ⟨negative, bits, -1074⟩
  else ⟨negative, leadingBit + bits % leadingBit, bits / leadingBit - 1075⟩

/-- The exact value of a finite double. -/
def ofFloat (x : Float) : Binary := ofMagnitudeBits (signBit x) (magnitudeBits x)

/-- The magnitude is `numerator / denominator`. -/
def numerator (b : Binary) : Nat := b.mantissa * Nat.pow 2 b.exponent.toNat

@[inherit_doc numerator]
def denominator (b : Binary) : Nat := Nat.pow 2 (-b.exponent).toNat

/-- Below a power of two the doubles lie twice as close as above it. -/
def narrowBelow (b : Binary) : Bool := b.mantissa == leadingBit && decide (-1074 < b.exponent)

end Binary

end HpGl
