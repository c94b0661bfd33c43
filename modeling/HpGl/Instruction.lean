import HpGl.Geometry
import HpGl.Statement

/-!
# The instruction set

The instructions that drawing calls compose, with their parameters in device units and whole
degrees.

* `Instruction`: one constructor for each mnemonic.
* `Instruction.piece`: what is written for an instruction.
-/

namespace HpGl

/-- An instruction of the device. -/
inductive Instruction where
  /-- `IN`: back to the state at power-on. -/
  | reset
  /-- `SP`: take the pen from a slot of the carousel. -/
  | selectPen (slot : Nat)
  /-- `PU`: lift the pen, then move if a position is given. -/
  | penUp (target : Option Point)
  /-- `PD`: lower the pen, then draw through the positions. -/
  | penDown (path : List Point)
  /-- `PA`: go to an absolute position with the pen as it is. -/
  | plotAbsolute (target : Point)
  /-- `LT`: solid lines, or a pattern with its length in percent. -/
  | lineType (pattern : Option (Nat × Option Float))
  /-- `FT`: a fill model, with spacing and angle if it hatches. -/
  | fillType (model : Nat) (hatching : Option (Float × Float))
  /-- `RO`: rotate the coordinate system. -/
  | rotate (degrees : Int32)
  /-- `VS`: pen velocity. -/
  | velocity (speed : Float)
  /-- `CI`: a circle around the current position. -/
  | circle (radius : Float) (chord : Option Float)
  /-- `AA`: an arc around a center from the current position. -/
  | arcAbsolute (center : Point) (sweep : Int32) (chord : Option Float)
  /-- `EW`: the edge of a wedge. -/
  | edgeWedge (radius : Float) (start sweep : Int32) (chord : Option Float)
  /-- `WG`: a filled wedge. -/
  | fillWedge (radius : Float) (start sweep : Int32) (chord : Option Float)
  /-- `ER`: the edge of a rectangle. -/
  | edgeRectangle (width height : Float)
  /-- `RR`: a filled rectangle. -/
  | fillRectangle (width height : Float)
  /-- `PM0`: clear the polygon buffer and record into it. -/
  | openPolygon
  /-- `PM2`: close the polygon and stop recording. -/
  | closePolygon
  /-- `EP`: draw the edge of the recorded polygon. -/
  | edgePolygon
  /-- `FP`: fill the recorded polygon. -/
  | fillPolygon
  /-- `SS`: the standard character set. -/
  | standardSet
  /-- `SI`: character size in centimetres. -/
  | characterSize (width height : Float)
  /-- `LB`: a label at the current position. -/
  | label (text : String)
  deriving DecidableEq

namespace Instruction

/-- The chord angle as a last parameter. -/
def chordParam (chord : Option Float) : List Param := (chord.map Param.real).toList

/-- What is written for an instruction. -/
def piece : Instruction → Piece
  | reset => .instruction "IN" []
  | selectPen n => .instruction "SP" [.integer n]
  | penUp none => .instruction "PU" []
  | penUp (some p) => .instruction "PU" [.real p.x, .real p.y]
  | penDown ps => .path "PD" (ps.map fun p => (p.x, p.y))
  | plotAbsolute p => .instruction "PA" [.real p.x, .real p.y]
  | lineType none => .instruction "LT" []
  | lineType (some (n, length)) => .instruction "LT" (.integer n :: (length.map Param.real).toList)
  | fillType m none => .instruction "FT" [.integer m]
  | fillType m (some (spacing, angle)) =>
    .instruction "FT" [.integer m, .real spacing, .real angle]
  | rotate n => .instruction "RO" [.integer n.toInt]
  | velocity v => .instruction "VS" [.real v]
  | circle r c => .instruction "CI" (.real r :: chordParam c)
  | arcAbsolute p n c =>
    .instruction "AA" ([.real p.x, .real p.y, .integer n.toInt] ++ chordParam c)
  | edgeWedge r a n c =>
    .instruction "EW" ([.real r, .integer a.toInt, .integer n.toInt] ++ chordParam c)
  | fillWedge r a n c =>
    .instruction "WG" ([.real r, .integer a.toInt, .integer n.toInt] ++ chordParam c)
  | edgeRectangle w h => .instruction "ER" [.real w, .real h]
  | fillRectangle w h => .instruction "RR" [.real w, .real h]
  | openPolygon => .instruction "PM" [.integer 0]
  | closePolygon => .instruction "PM" [.integer 2]
  | edgePolygon => .instruction "EP" []
  | fillPolygon => .instruction "FP" []
  | standardSet => .instruction "SS" []
  | characterSize w h => .instruction "SI" [.real w, .real h]
  | label t => .label t

end Instruction

/-- The statement composed of these instructions. -/
def Statement.ofInstructions (is : List Instruction) : Statement :=
  .ofPieces (is.map Instruction.piece)

end HpGl
