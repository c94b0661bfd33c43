import HpGl.Document.Settings
import HpGl.Job.Operation

/-!
# Jobs as documents

The JSON value and the reader of operations and jobs. An operation is an object with its name in
the member `op`, or an array that begins with the name.

* `operationValue`, `operation`: one operation.
* `jobValue`, `job`: a job.
-/

namespace HpGl.Document

open Json (Reader Record Value Variant)

/-- A value that may be `null`. -/
def nullable {α : Type} (toValue : α → Value) : Option α → Value
  | some x => toValue x
  | none => .null

/-- A number that may be `null`. -/
def nullableReal : Option Float → Value := nullable .real

/-- The name of an operation and its members. -/
def operationMembers : Operation → String × List (String × Value)
  | .pen slot => ("pen", [("slot", int32Value slot)])
  | .lineType pattern space =>
    ("line_type", [("pattern", nullable int32Value pattern), ("space", nullableReal space)])
  | .fillType model spacing angle =>
    ("fill_type",
      [("model", int32Value model), ("spacing", nullableReal spacing),
        ("angle", nullableReal angle)])
  | .style s => ("style", [("style", rawStyleValue s)])
  | .rotate theta => ("rotate", [("theta", int32Value theta)])
  | .speed v => ("speed", [("cm_per_s", .real v)])
  | .sendTo p => ("send_to", [("at", pointValue p)])
  | .line a b => ("line", [("from", pointValue a), ("to", pointValue b)])
  | .drawTo p => ("draw_to", [("at", pointValue p)])
  | .lines ps => ("lines", [("points", pointsValue ps)])
  | .circle c d res =>
    ("circle",
      [("center", pointValue c), ("diameter", .real d), ("resolution", nullableReal res)])
  | .fillCircle c d f res =>
    ("fill_circle",
      [("center", pointValue c), ("diameter", .real d), ("fill", fillValue f),
        ("resolution", nullableReal res)])
  | .wedge c d start sweep res =>
    ("wedge",
      [("center", pointValue c), ("diameter", .real d), ("start", .real start),
        ("sweep", .real sweep), ("resolution", nullableReal res)])
  | .fillWedge c d start sweep f res =>
    ("fill_wedge",
      [("center", pointValue c), ("diameter", .real d), ("start", .real start),
        ("sweep", .real sweep), ("fill", fillValue f), ("resolution", nullableReal res)])
  | .arc c size start stop res =>
    ("arc",
      [("center", pointValue c), ("size", .real size), ("start", .real start),
        ("end", .real stop), ("resolution", nullableReal res)])
  | .rectangle p w h =>
    ("rect", [("corner", pointValue p), ("width", .real w), ("height", .real h)])
  | .fillRectangle p w h f =>
    ("fill_rect",
      [("corner", pointValue p), ("width", .real w), ("height", .real h), ("fill", fillValue f)])
  | .polygon ps => ("poly", [("points", pointsValue ps)])
  | .fillPolygon ps f => ("fill_poly", [("points", pointsValue ps), ("fill", fillValue f)])
  | .label text p size =>
    ("label", [("text", .string text), ("at", pointValue p), ("size", .real size)])
  | .park => ("park", [])
  | .raw text => ("raw", [("hpgl", .string text)])

/-- An operation as a document. -/
def operationValue (o : Operation) : Value :=
  let (name, members) := operationMembers o
  .object (("op", .string name) :: members)

/-- An alternative with the fields of an operation. -/
def operationVariant (tag title : String) (r : Record Operation) : Variant Operation :=
  .record tag ("struct variant Operation::" ++ title) r

/-- The operations by their names. -/
def operationVariants : List (Variant Operation) := [
  operationVariant "pen" "Pen" (.pen <$> .field "slot" Json.int32),
  operationVariant "line_type" "LineType"
    (.lineType <$> .optionalField "pattern" Json.int32 <*> .optionalField "space" Json.real),
  operationVariant "fill_type" "FillType"
    (.fillType <$> .field "model" Json.int32 <*> .optionalField "spacing" Json.real <*>
      .optionalField "angle" Json.real),
  operationVariant "style" "Style" (.style <$> .fieldOr "style" (some default) rawStyle),
  operationVariant "rotate" "Rotate" (.rotate <$> .field "theta" Json.int32),
  operationVariant "speed" "Speed" (.speed <$> .field "cm_per_s" Json.real),
  operationVariant "send_to" "SendTo" (.sendTo <$> .field "at" point),
  operationVariant "line" "Line" (.line <$> .field "from" point <*> .field "to" point),
  operationVariant "draw_to" "DrawTo" (.drawTo <$> .field "at" point),
  operationVariant "lines" "Lines" (.lines <$> .field "points" (Json.list point)),
  operationVariant "circle" "Circle"
    (.circle <$> .field "center" point <*> .field "diameter" Json.real <*>
      .optionalField "resolution" Json.real),
  operationVariant "fill_circle" "FillCircle"
    (.fillCircle <$> .field "center" point <*> .field "diameter" Json.real <*> fillField <*>
      .optionalField "resolution" Json.real),
  operationVariant "wedge" "Wedge"
    (.wedge <$> .field "center" point <*> .field "diameter" Json.real <*>
      .field "start" Json.real <*> .field "sweep" Json.real <*>
      .optionalField "resolution" Json.real),
  operationVariant "fill_wedge" "FillWedge"
    (.fillWedge <$> .field "center" point <*> .field "diameter" Json.real <*>
      .field "start" Json.real <*> .field "sweep" Json.real <*> fillField <*>
      .optionalField "resolution" Json.real),
  operationVariant "arc" "Arc"
    (.arc <$> .field "center" point <*> .field "size" Json.real <*> .field "start" Json.real <*>
      .field "end" Json.real <*> .optionalField "resolution" Json.real),
  operationVariant "rect" "Rect"
    (.rectangle <$> .field "corner" point <*> .field "width" Json.real <*>
      .field "height" Json.real),
  operationVariant "fill_rect" "FillRect"
    (.fillRectangle <$> .field "corner" point <*> .field "width" Json.real <*>
      .field "height" Json.real <*> fillField),
  operationVariant "poly" "Poly" (.polygon <$> .field "points" (Json.list point)),
  operationVariant "fill_poly" "FillPoly"
    (.fillPolygon <$> .field "points" (Json.list point) <*> fillField),
  operationVariant "label" "Label"
    (.label <$> .field "text" Json.string <*> .field "at" point <*> .field "size" Json.real),
  .unit "park" .park,
  operationVariant "raw" "Raw" (.raw <$> .field "hpgl" Json.string)]

/-- Reads an operation. -/
def operation : Reader Operation :=
  Json.tagged operationVariants "op" "internally tagged enum Operation"

/-- A job as a document. -/
def jobValue (j : Job) : Value :=
  .object (ifSet "plotter" configValue j.plotter ++
    [("operations", .array (j.operations.map operationValue))])

/-- Reads a job. -/
def job : Reader Job :=
  Record.read
    (Job.mk <$> .optionalField "plotter" config <*> .field "operations" (Json.list operation))
    "struct PlotJob"

end HpGl.Document
