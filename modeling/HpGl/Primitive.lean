import HpGl.Degrees
import HpGl.Instruction
import HpGl.Style
import HpGl.Transform

/-!
# Drawing primitives

Each primitive becomes one complete statement, or is refused with a cause. Nothing is remembered
between primitives. A statement that lowers the pen lifts it again before it ends, `drawTo` alone
excepted, and a polygon is recorded, closed and drawn in one statement.

* `Primitive`: the calls, with their arguments as the caller gives them.
* `Primitive.instructions`: what a call becomes under a transform. Arguments are checked in a
  fixed order, numbers before and after they are scaled.
* `Primitive.compose`: the statement.
-/

namespace HpGl

/-- A call that draws or sets the device. Angles of curves are in radians. -/
inductive Primitive where
  | reset
  | park
  | selectPen (slot : Int32)
  | lineType (type : Option LineType)
  | rotate (degrees : Int32)
  | penSpeed (speed : Float)
  | fillType (fill : Fill)
  | applyStyle (style : Style)
  | sendTo (target : Point)
  | line (first last : Point)
  | drawTo (target : Point)
  | lines (points : List Point)
  | circle (center : Point) (diameter : Float) (options : Options)
  | fillCircle (center : Point) (diameter : Float) (options : Options)
  | wedge (center : Point) (diameter start sweep : Float) (options : Options)
  | fillWedge (center : Point) (diameter start sweep : Float) (options : Options)
  | arc (center : Point) (size start stop : Float) (options : Options)
  | rectangle (corner : Point) (width height : Float)
  | fillRectangle (corner : Point) (width height : Float) (options : Options)
  | polygon (outline : Outline) (vertices : List Point)
  | fillPolygon (outline : Outline) (vertices : List Point) (options : Options)
  | label (text : String) (target : Point) (size : Float)
  deriving DecidableEq

/-- A refusal, or the value that was checked. -/
abbrev Checked (α : Type) := Except Refusal α

/-- A number that is neither infinite nor a NaN. -/
def finite (v : Float) (what : Quantity) : Checked Float :=
  if v.isFinite then .ok v else .error (.nonFinite what)

/-- A point of two such numbers. -/
def finitePoint (p : Point) (what : Quantity) : Checked Point :=
  if p.isFinite then .ok p else .error (.nonFinite what)

namespace Transform

variable (t : Transform)

/-- A position on the device, finite before and after it is scaled. -/
def device (p : Point) (what : Quantity) : Checked Point := do
  finitePoint (t.point (← finitePoint p what)) what

/-- A length on the device, finite before and after it is scaled. -/
def deviceLength (v : Float) (what : Quantity) : Checked Float := do
  finite (t.length (← finite v what)) what

/-- Half a diameter on the device. -/
def radius (diameter : Float) : Checked Float := t.deviceLength (diameter / 2) .diameter

/-- The vertices of an outline on the device, of which there is at least one. -/
def vertices (ps : List Point) (what : Outline) : Checked (Point × List Point) :=
  match ps with
  | [] => .error (.emptyPath what)
  | p :: ps => do return (← t.device p .vertex, ← ps.mapM fun p => t.device p .vertex)

/-- Lift the pen and go to a position. -/
def moveTo (p : Point) (what : Quantity) : Checked (List Instruction) := do
  return [.penUp none, .plotAbsolute (← t.device p what)]

/-- The fill, its spacing scaled. -/
def fillType (f : Fill) : Checked Instruction :=
  match f.hatching with
  | none => .ok (.fillType f.model none)
  | some (spacing, angle) => do
    let spacing ← t.deviceLength spacing .fillSpacing
    let angle ← finite angle .fillAngle
    return .fillType f.model (some (spacing, angle))

end Transform

namespace Primitive

/-- The width and the height of a character cell in centimetres, for a size in points. -/
def labelCell (size : Float) : Float × Float :=
  let width := size * 0.0264
  (width, width * 1.32)

/-- Where the pen starts an arc, in the drawing. -/
def arcStart (center : Point) (size start : Float) : Point := center.onCircle (size / 2) start

/-- The whole degrees from one angle to another. -/
def arcSweep (start stop : Float) : Int32 := wholeDegrees (degrees stop - degrees start)

/-- The chord angle of a curve, a positive number if it is given. -/
def chord (options : Options) : Checked (Option Float) :=
  match options.resolution with
  | none => .ok none
  | some r => if r.isFinite && decide (0 < r) then .ok (some r) else .error (.invalidResolution r)

/-- Start and sweep of a wedge in whole degrees. -/
def wedgeAngles (start sweep : Float) : Checked (Int32 × Int32) := do
  let start ← finite start .startAngle
  let sweep ← finite sweep .sweepAngle
  return (wholeDegrees (degrees start), wholeDegrees (degrees sweep))

/-- Select a pen. -/
def selectPenInstructions (slot : Int32) : Checked (List Instruction) := do
  return [.selectPen (← Pen.ofSlot slot).slot]

/-- Select a line pattern. -/
def lineTypeInstructions (type : LineType) : Checked (List Instruction) := do
  type.validate
  return [.lineType (some (type.pattern.toNat, type.spacePercent))]

variable (t : Transform)

/-- Select the members of a style that are set: pen, line, fill. -/
def styleInstructions (s : Style) : Checked (List Instruction) := do
  let pen := s.pen.map fun p => Instruction.selectPen p.slot
  let line ← match s.lineType with
    | none => pure []
    | some l => lineTypeInstructions l
  let fill ← s.fill.mapM t.fillType
  return pen.toList ++ line ++ fill.toList

/-- A wedge or, as there is no instruction for a filled circle, a whole turn of one. With a fill
it is filled. -/
def wedgeInstructions (fill : Option Fill) (center : Point) (diameter : Float)
    (angles : Int32 × Int32) (options : Options) : Checked (List Instruction) := do
  let radius ← t.radius diameter
  let chord ← chord options
  let move ← t.moveTo center .center
  match fill with
  | none => return move ++ [.edgeWedge radius angles.1 angles.2 chord]
  | some f => return move ++ [← t.fillType f, .fillWedge radius angles.1 angles.2 chord]

/-- An arc. The device draws it from where the pen is, so the pen goes to its start first. -/
def arcInstructions (center : Point) (size start stop : Float) (options : Options) :
    Checked (List Instruction) := do
  discard <| finite size .arcSize
  discard <| finite start .startAngle
  discard <| finite stop .endAngle
  let c ← t.device center .center
  let s ← t.device (arcStart center size start) .arcStart
  let chord ← chord options
  return [.penUp none, .plotAbsolute s, .penDown [], .arcAbsolute c (arcSweep start stop) chord,
    .penUp none]

/-- Go to the first vertex with the pen up, then record every vertex and the way back to the
first; `body` stands before the vertices. -/
def recordPolygon (body : List Instruction) (first : Point) (rest : List Point) :
    List Instruction :=
  [.penUp none, .plotAbsolute first, .openPolygon] ++ body ++
    (first :: rest ++ [first]).map .plotAbsolute

/-- What a call becomes. -/
def instructions : Primitive → Checked (List Instruction)
  | reset => .ok [.reset]
  | park => .ok [.penUp none, .selectPen Pen.none.slot]
  | selectPen slot => selectPenInstructions slot
  | lineType none => .ok [.lineType none]
  | lineType (some type) => lineTypeInstructions type
  | rotate n => .ok [.rotate n]
  | penSpeed v =>
    if v.isFinite && decide (0 < v) then .ok [.velocity v] else .error (.invalidSpeed v)
  | fillType f => do return [← t.fillType f]
  | applyStyle s => styleInstructions t s
  | sendTo p => do return [.penUp (← t.device p .target)]
  | line a b => do
    let a ← t.device a .lineStart
    let b ← t.device b .lineEnd
    return [.penUp a, .penDown [b], .penUp none]
  | drawTo p => do return [.penDown [], .plotAbsolute (← t.device p .target)]
  | lines ps => do
    let (first, rest) ← t.vertices ps .polyline
    return [.penUp first, .penDown rest, .penUp none]
  | circle c d o => do
    let radius ← t.radius d
    let chord ← chord o
    return (← t.moveTo c .center) ++ [.circle radius chord]
  | fillCircle c d o => wedgeInstructions t (some o.fill) c d (0, 360) o
  | wedge c d start sweep o => do
    wedgeInstructions t none c d (← wedgeAngles start sweep) o
  | fillWedge c d start sweep o => do
    wedgeInstructions t (some o.fill) c d (← wedgeAngles start sweep) o
  | arc c size start stop o => arcInstructions t c size start stop o
  | rectangle p width height => do
    let w ← t.deviceLength width .width
    let h ← t.deviceLength height .height
    return (← t.moveTo p .corner) ++ [.penDown [], .edgeRectangle w h, .penUp none]
  | fillRectangle p width height o => do
    let w ← t.deviceLength width .width
    let h ← t.deviceLength height .height
    let fill ← t.fillType o.fill
    return (← t.moveTo p .corner) ++ [fill, .penDown [], .fillRectangle w h, .penUp none]
  | polygon outline ps => do
    let (first, rest) ← t.vertices ps outline
    return recordPolygon [.penDown []] first rest ++ [.penUp none, .closePolygon, .edgePolygon]
  | fillPolygon outline ps o => do
    let (first, rest) ← t.vertices ps outline
    let fill ← t.fillType o.fill
    return recordPolygon [] first rest ++ [.closePolygon, fill, .fillPolygon]
  | label text p size => do
    if labelTerminator ∈ text.toList then
      throw (.embeddedLabelTerminator
        (String.ofList (text.toList.takeWhile (· != labelTerminator))).utf8ByteSize)
    let (w, h) := labelCell (← finite size .labelSize)
    return (← t.moveTo p .labelPosition) ++ [.standardSet, .characterSize w h, .label text]

/-- The statement of a call. -/
def compose (p : Primitive) : Checked Statement :=
  (p.instructions t).map .ofInstructions

end Primitive

end HpGl
