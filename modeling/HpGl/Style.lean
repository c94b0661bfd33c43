import HpGl.Refusal

/-!
# Pens, lines and fills

Styles are plain values that go with each call; nothing here knows what the device has selected.
The forms with plain integers, as a job gives them, are checked by `RawStyle.validate`.

* `Pen`: a carousel slot in `0..6`.
* `LineType`, `Fill`: a dash pattern and an area fill.
* `Style`, `RawStyle`: what is selected together, checked and not.
-/

namespace HpGl

/-- A carousel slot; slot `0` holds no pen. -/
structure Pen where
  slot : Nat
  slot_le : slot ≤ 6
  deriving DecidableEq

namespace Pen

/-- No pen: the one in use goes back to the carousel. -/
def none : Pen := ⟨0, by omega⟩

/-- The pen of a slot. -/
def ofSlot (slot : Int32) : Except Refusal Pen :=
  let n := slot.toInt
  if h : 0 ≤ n ∧ n ≤ 6 then .ok ⟨n.toNat, by omega⟩ else .error (.penOutOfRange slot)

end Pen

/-- A dash pattern, whose number is checked when it is used. -/
structure LineType where
  pattern : UInt8
  /-- The length of the pattern as a percentage of the diagonal of the page. -/
  spacePercent : Option Float
  deriving DecidableEq

namespace LineType

/-- The pattern with this number and length. -/
def ofPattern (pattern : Int32) (spacePercent : Option Float) : Except Refusal LineType :=
  let n := pattern.toInt
  if 0 ≤ n ∧ n ≤ 6 then .ok ⟨UInt8.ofNat n.toNat, spacePercent⟩
  else .error (.lineTypeOutOfRange pattern)

/-- A pattern in `0..6` with a finite length, if it has one. -/
def validate (t : LineType) : Except Refusal Unit :=
  if 6 < t.pattern.toNat then .error (.lineTypeOutOfRange (Int32.ofNat t.pattern.toNat))
  else match t.spacePercent with
    | some s => if s.isFinite then .ok () else .error (.nonFinite .lineTypeSpacing)
    | none => .ok ()

end LineType

/-- An area fill. Spacings are lengths of the drawing, angles are in degrees. -/
inductive Fill where
  | solid
  | solidUnidirectional
  | hatch (spacing angle : Float)
  | crossHatch (spacing angle : Float)
  deriving DecidableEq

namespace Fill

instance : Inhabited Fill := ⟨solid⟩

/-- The fill of a model number. The hatching models need both numbers, the solid ones ignore
them. -/
def ofModel (model : Int32) (spacing angle : Option Float) : Except Refusal Fill :=
  if model = 1 then .ok solid
  else if model = 2 then .ok solidUnidirectional
  else if model = 3 ∨ model = 4 then
    match spacing, angle with
    | some s, some a => .ok (if model = 3 then hatch s a else crossHatch s a)
    | _, _ => .error (.missingHatchParameters model)
  else .error (.invalidFillModel model)

/-- The model number of a fill. -/
def model : Fill → Nat
  | solid => 1
  | solidUnidirectional => 2
  | hatch .. => 3
  | crossHatch .. => 4

/-- Spacing and angle of the hatching fills. -/
def hatching : Fill → Option (Float × Float)
  | hatch s a => some (s, a)
  | crossHatch s a => some (s, a)
  | _ => none

end Fill

/-- Options of the shapes. -/
structure Options where
  /-- The chord angle of curves in degrees; the device has a default. -/
  resolution : Option Float
  /-- The fill of the filled shapes. -/
  fill : Fill
  deriving DecidableEq, Inhabited

/-- What is selected together. Unset members leave the device as it is. -/
structure Style where
  pen : Option Pen
  lineType : Option LineType
  fill : Option Fill
  deriving DecidableEq, Inhabited

/-- A line pattern as a job gives it. -/
structure RawLineType where
  pattern : Int32
  spacePercent : Option Float
  deriving DecidableEq

/-- A style as a job gives it. -/
structure RawStyle where
  pen : Option Int32
  lineType : Option RawLineType
  fill : Option Fill
  deriving DecidableEq, Inhabited

/-- The checked form of a style: the pen first, then the line pattern. -/
def RawStyle.validate (s : RawStyle) : Except Refusal Style := do
  let pen ← s.pen.mapM Pen.ofSlot
  let lineType ← s.lineType.mapM fun t => LineType.ofPattern t.pattern t.spacePercent
  return ⟨pen, lineType, s.fill⟩

end HpGl
