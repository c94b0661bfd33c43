import HpGl.Decimal.Binary

/-!
# Whole degrees

Angles are given in radians and sent as whole degrees. A value in degrees that lies closer than
`1e-9` to an integer is that integer, so that noise in the last place does not cost a degree; any
other value is truncated toward zero.

* `degrees`: radians in degrees.
* `wholeDegrees`: the integer that is sent, held to 32 bits.
-/

namespace HpGl

/-- An angle in degrees. The factor is `180 / π`, rounded once. -/
def degrees (radians : Float) : Float := radians * 57.29577951308232

/-- Closer than this to an integer, a number of degrees is that integer. -/
def degreeSnap : Float := 1e-9

/-- `num / den` differs from the integer `n` by less than `degreeSnap`. -/
def snapsTo (num den n : Nat) : Bool :=
  let snap := Binary.ofFloat degreeSnap
  decide (((num : Int) - n * den).natAbs * snap.denominator < snap.numerator * den)

/-- The magnitude `num / den` as an integer: a near one if there is one, else the integer part. -/
def wholeMagnitude (num den : Nat) : Nat :=
  let whole := num / den
  let nearest := if den ≤ 2 * (num % den) then whole + 1 else whole
  if snapsTo num den nearest then nearest else whole

/-- An integer held to the range of 32 bits. -/
def saturate (n : Int) : Int32 := Int32.ofInt (max (-0x80000000) (min 0x7FFFFFFF n))

/-- The whole degrees that are sent for a value in degrees: those of a NaN are zero, those of
anything out of range the nearest end of the range. -/
def wholeDegrees (x : Float) : Int32 :=
  if x.isNaN then 0
  else
    let negative := Binary.signBit x
    if x.isInf then saturate (if negative then -0x80000000 else 0x80000000)
    else
      let b := Binary.ofFloat x
      let n := wholeMagnitude b.numerator b.denominator
      saturate (if negative then -n else n)

end HpGl
