import HpGl.Geometry
import HpGl.Json.Reader
import HpGl.Json.Value
import HpGl.Style

/-!
# Points and styles as documents

For each type its JSON value and its reader. Members that are unset are left out; a point may be
read from an array of two numbers, a fill from an array that begins with its model.
-/

namespace HpGl.Document

open Json (Reader Record Value Variant)

/-- A member that is left out when it is unset. -/
def ifSet {α : Type} (name : String) (toValue : α → Value) : Option α → List (String × Value)
  | some x => [(name, toValue x)]
  | none => []

/-- A signed integer. -/
def int32Value (n : Int32) : Value := .integer n.toInt

/-! ## Points -/

/-- A point as a document. -/
def pointValue (p : Point) : Value := .object [("x", .real p.x), ("y", .real p.y)]

/-- The fields of a point. -/
def pointRecord : Record Point := Point.mk <$> .field "x" Json.real <*> .field "y" Json.real

/-- Reads a point. -/
def point : Reader Point := pointRecord.read "struct Point"

/-- Points as a document. -/
def pointsValue (ps : List Point) : Value := .array (ps.map pointValue)

/-- A polygon as a document. -/
def polygonValue (p : Polygon) : Value := .object [("vertices", pointsValue p.vertices)]

/-- Reads a polygon. -/
def polygon : Reader Polygon :=
  Record.read (Polygon.mk <$> .field "vertices" (Json.list point)) "struct Polygon"

/-! ## Pens and lines -/

/-- A pen as a document: its slot. -/
def penValue (p : Pen) : Value := .integer p.slot

/-- Reads a pen; a slot that is out of range is a fault. -/
def pen : Reader Pen := fun a s => do
  match Pen.ofSlot (← Json.int32 a s) with
  | .ok p => return p
  | .error r => Json.unfit (.refused r)

/-- A line pattern as a document. -/
def lineTypeValue (t : LineType) : Value :=
  .object (("pattern", .integer t.pattern.toNat) :: ifSet "space_percent" .real t.spacePercent)

/-- Reads a line pattern. -/
def lineType : Reader LineType :=
  Record.read
    (LineType.mk <$> .field "pattern" Json.uint8 <*> .optionalField "space_percent" Json.real)
    "struct LineType"

/-- An unchecked line pattern as a document. -/
def rawLineTypeValue (t : RawLineType) : Value :=
  .object (("pattern", int32Value t.pattern) :: ifSet "space_percent" .real t.spacePercent)

/-- Reads an unchecked line pattern. -/
def rawLineType : Reader RawLineType :=
  Record.read
    (RawLineType.mk <$> .field "pattern" Json.int32 <*> .optionalField "space_percent" Json.real)
    "struct RawLineType"

/-! ## Fills -/

/-- A fill as a document, its model among the members. -/
def fillValue : Fill → Value
  | .solid => .object [("model", .string "solid")]
  | .solidUnidirectional => .object [("model", .string "solid_unidirectional")]
  | .hatch s a => .object [("model", .string "hatch"), ("spacing", .real s), ("angle", .real a)]
  | .crossHatch s a =>
    .object [("model", .string "cross_hatch"), ("spacing", .real s), ("angle", .real a)]

/-- The fields of a hatching fill. -/
def hatchingRecord (f : Float → Float → Fill) : Record Fill :=
  f <$> .field "spacing" Json.real <*> .field "angle" Json.real

/-- The fills by their models. -/
def fillVariants : List (Variant Fill) := [
  .unit "solid" .solid,
  .unit "solid_unidirectional" .solidUnidirectional,
  .record "hatch" "struct variant FillStyle::Hatch" (hatchingRecord .hatch),
  .record "cross_hatch" "struct variant FillStyle::CrossHatch" (hatchingRecord .crossHatch)]

/-- Reads a fill. -/
def fill : Reader Fill := Json.tagged fillVariants "model" "internally tagged enum FillStyle"

/-- A fill that is solid unless it is given. -/
def fillField : Record Fill := .fieldOr "fill" (some .solid) fill

/-! ## Options and styles -/

/-- Options as a document. -/
def optionsValue (o : Options) : Value :=
  .object (ifSet "resolution" .real o.resolution ++ [("fill", fillValue o.fill)])

/-- Reads options. -/
def options : Reader Options :=
  Record.read (Options.mk <$> .optionalField "resolution" Json.real <*> fillField)
    "struct PlotOptions"

/-- A style as a document. -/
def styleValue (s : Style) : Value :=
  .object (ifSet "pen" penValue s.pen ++ ifSet "line_type" lineTypeValue s.lineType ++
    ifSet "fill" fillValue s.fill)

/-- Reads a style. -/
def style : Reader Style :=
  Record.read
    (Style.mk <$> .optionalField "pen" pen <*> .optionalField "line_type" lineType <*>
      .optionalField "fill" fill)
    "struct StyleContext"

/-- An unchecked style as a document. -/
def rawStyleValue (s : RawStyle) : Value :=
  .object (ifSet "pen" int32Value s.pen ++ ifSet "line_type" rawLineTypeValue s.lineType ++
    ifSet "fill" fillValue s.fill)

/-- Reads an unchecked style. -/
def rawStyle : Reader RawStyle :=
  Record.read
    (RawStyle.mk <$> .optionalField "pen" Json.int32 <*>
      .optionalField "line_type" rawLineType <*> .optionalField "fill" fill)
    "struct RawStyle"

end HpGl.Document
