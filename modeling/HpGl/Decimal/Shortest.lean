import HpGl.Decimal.Basic
import HpGl.Decimal.Binary

/-!
# The fewest digits that read back

The reals that round to a double form an interval around it, the ends belonging to it exactly when
the mantissa is even. For one digit, two digits and so on, the two neighbours of the double on that
decimal grid are tested; the first grid with a hit wins, and of two hits the nearer. Between two
hits at the same distance the format decides (`Tie`).

* `Binary.readsBack`: the test, on naturals.
* `Binary.onGrid`: the choice on one grid.
* `Binary.shortest`: the digits that are written.
-/

namespace HpGl

/-- Which of two equally near decimals is written. -/
inductive Tie where
  | even
  | up
  deriving DecidableEq, Repr

namespace Binary

/-- One step of the grid `10 ^ g`, in the unit that `quarter` counts in. -/
def gridStep (b : Binary) (g : Int) : Nat := Nat.pow 10 g.toNat * Nat.pow 2 (2 - b.exponent).toNat

/-- A quarter of the last binary place, in the unit that `gridStep` counts in. -/
def quarter (b : Binary) (g : Int) : Nat := Nat.pow 2 (b.exponent - 2).toNat * Nat.pow 10 (-g).toNat

/-- The lower end of the interval, in quarters of the last binary place. -/
def lower (b : Binary) : Nat :=
  if b.narrowBelow then 4 * b.mantissa - 1 else 4 * b.mantissa - 2

/-- The upper end of the interval, in quarters of the last binary place. -/
def upper (b : Binary) : Nat := 4 * b.mantissa + 2

/-- The decimal `d * 10 ^ g` is among the reals that round to `b`. -/
def readsBack (b : Binary) (d : Nat) (g : Int) : Bool :=
  let x := d * b.gridStep g
  let lo := b.lower * b.quarter g
  let hi := b.upper * b.quarter g
  if b.mantissa % 2 = 0 then lo ≤ x && x ≤ hi else lo < x && x < hi

/-- The nearer of `d` and `d + 1` to `b` on the grid `10 ^ g`. -/
def nearer (b : Binary) (tie : Tie) (d : Nat) (g : Int) : Nat :=
  match compare (2 * (4 * b.mantissa * b.quarter g)) ((2 * d + 1) * b.gridStep g), tie with
  | .lt, _ => d
  | .gt, _ => d + 1
  | .eq, .even => d + d % 2
  | .eq, .up => d + 1

/-- The multiple of `10 ^ g` that reads back as `b`, if a neighbour of `b` does. -/
def onGrid (b : Binary) (tie : Tie) (g : Int) : Option Nat :=
  let d := 4 * b.mantissa * b.quarter g / b.gridStep g
  match b.readsBack d g, b.readsBack (d + 1) g with
  | true, true => some (b.nearer tie d g)
  | true, false => some d
  | false, true => some (d + 1)
  | false, false => none

/-- The least `k` with `b < 10 ^ k`, for `b` other than zero. -/
def scale (b : Binary) : Int :=
  if b.denominator ≤ b.numerator then Decimal.digitCount (b.numerator / b.denominator)
  else 1 - Decimal.digitCount ((b.denominator - 1) / b.numerator)

/-- All the digits of the value. -/
def exact (b : Binary) : Decimal :=
  ⟨b.numerator * Nat.pow 5 (-b.exponent).toNat, min b.exponent 0⟩

/-- The decimal with the fewest digits that reads back as `b`, the nearest one of those. Seventeen
digits always suffice; the exact value stands behind them so that no wrong digit can be written. -/
def shortest (tie : Tie) (b : Binary) : Decimal :=
  if b.mantissa = 0 then ⟨0, 0⟩
  else
    let k := b.scale
    match (List.range 17).findSome? fun (n : Nat) =>
        (b.onGrid tie (k - 1 - n)).map fun d => (⟨d, k - 1 - n⟩ : Decimal) with
    | some d => d.strip
    | none => b.exact.strip

end Binary

end HpGl
