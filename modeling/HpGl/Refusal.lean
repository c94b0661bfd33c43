import HpGl.Decimal.Layout

/-!
# Refused arguments

Why a statement cannot be composed, or a session cannot be opened. Each cause has one wording,
`Refusal.message`.

* `Quantity`: the numbers that must be finite, by the name a message gives them.
* `Refusal`: the causes.
-/

namespace HpGl

/-- What a number of a call stands for. -/
inductive Quantity where
  | target
  | lineStart
  | lineEnd
  | vertex
  | center
  | diameter
  | width
  | height
  | corner
  | arcSize
  | startAngle
  | sweepAngle
  | endAngle
  | arcStart
  | labelSize
  | labelPosition
  | fillSpacing
  | fillAngle
  | lineTypeSpacing
  deriving DecidableEq, Repr

/-- The name of a quantity in messages. -/
def Quantity.name : Quantity → String
  | target => "target"
  | lineStart => "line start"
  | lineEnd => "line end"
  | vertex => "vertex"
  | center => "center"
  | diameter => "diameter"
  | width => "width"
  | height => "height"
  | corner => "corner"
  | arcSize => "arc size"
  | startAngle => "start angle"
  | sweepAngle => "sweep angle"
  | endAngle => "end angle"
  | arcStart => "arc start"
  | labelSize => "label size"
  | labelPosition => "label position"
  | fillSpacing => "fill spacing"
  | fillAngle => "fill angle"
  | lineTypeSpacing => "line type spacing"

/-- What a list of vertices was given as. -/
inductive Outline where
  | polyline
  | polygon
  | shape
  deriving DecidableEq, Repr

/-- The name of an outline in messages. -/
def Outline.name : Outline → String
  | polyline => "polyline"
  | polygon => "polygon"
  | shape => "shape"

/-- Why arguments are refused. -/
inductive Refusal where
  /-- A carousel slot outside `0..6`. -/
  | penOutOfRange (slot : Int32)
  /-- A line pattern outside `0..6`. -/
  | lineTypeOutOfRange (pattern : Int32)
  /-- A fill model outside `1..4`. -/
  | invalidFillModel (model : Int32)
  /-- A hatching model without its spacing or its angle. -/
  | missingHatchParameters (model : Int32)
  /-- A chord angle that is not a positive number. -/
  | invalidResolution (degrees : Float)
  /-- A pen speed that is not a positive number. -/
  | invalidSpeed (speed : Float)
  /-- An outline without vertices. -/
  | emptyPath (what : Outline)
  /-- A label with the character that would end it, at this byte. -/
  | embeddedLabelTerminator (byte : Nat)
  /-- A scale that is not a positive finite number. -/
  | invalidScale (scale : Float)
  /-- A number that is infinite or a NaN, before or after it is scaled. -/
  | nonFinite (what : Quantity)
  deriving DecidableEq

/-- The wording of a refusal. -/
def Refusal.message : Refusal → String
  | penOutOfRange n =>
    "pen slot " ++ showInteger n ++ " is not a valid pen slot (expected 0-6)"
  | lineTypeOutOfRange n =>
    "line type " ++ showInteger n ++ " is not a valid pattern (expected 0-6)"
  | invalidFillModel n =>
    "fill model " ++ showInteger n ++ " is not a valid fill type (expected 1-4)"
  | missingHatchParameters n =>
    "fill model " ++ showInteger n ++ " needs both a spacing and an angle"
  | invalidResolution r =>
    "circle resolution must be a positive number of degrees, got " ++ Layout.display.render r
  | invalidSpeed v =>
    "pen speed must be a positive number of cm/s, got " ++ Layout.display.render v
  | emptyPath what => what.name ++ " needs at least one vertex"
  | embeddedLabelTerminator i =>
    "label text contains the ETX terminator at byte " ++ String.ofList (Decimal.digitsOf i)
  | invalidScale s =>
    "plotter scale must be a positive finite number, got " ++ Layout.display.render s
  | nonFinite what => what.name ++ " is not a finite number"
where
  /-- An integer in a message. -/
  showInteger (n : Int32) : String := String.ofList (integerChars n.toInt)

end HpGl
