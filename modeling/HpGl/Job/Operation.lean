import HpGl.Session

/-!
# Plot jobs

A job is a list of operations with the settings to run them under.

* `Operation`: the operations.
* `Operation.request`: the call that an operation makes.
* `Job.run`: all operations in order, up to the first failure of the sink.
-/

namespace HpGl

/-- An operation of a job. -/
inductive Operation where
  | pen (slot : Int32)
  | lineType (pattern : Option Int32) (space : Option Float)
  | fillType (model : Int32) (spacing angle : Option Float)
  | style (style : RawStyle)
  | rotate (theta : Int32)
  | speed (speed : Float)
  | sendTo (target : Point)
  | line (first last : Point)
  | drawTo (target : Point)
  | lines (points : List Point)
  | circle (center : Point) (diameter : Float) (resolution : Option Float)
  | fillCircle (center : Point) (diameter : Float) (fill : Fill) (resolution : Option Float)
  | wedge (center : Point) (diameter start sweep : Float) (resolution : Option Float)
  | fillWedge (center : Point) (diameter start sweep : Float) (fill : Fill)
      (resolution : Option Float)
  | arc (center : Point) (size start stop : Float) (resolution : Option Float)
  | rectangle (corner : Point) (width height : Float)
  | fillRectangle (corner : Point) (width height : Float) (fill : Fill)
  | polygon (points : List Point)
  | fillPolygon (points : List Point) (fill : Fill)
  | label (text : String) (target : Point) (size : Float)
  | park
  | raw (text : String)
  deriving DecidableEq

/-- The call that an operation makes. Without a pattern, a line type means solid lines. -/
def Operation.request : Operation → Request
  | pen slot => .draw (.selectPen slot)
  | lineType none _ => .draw (.lineType none)
  | lineType (some mode) space => .lineTypeMode mode space
  | fillType model spacing angle => .fillTypeMode model spacing angle
  | style s => .applyRawStyle s
  | rotate n => .draw (.rotate n)
  | speed v => .draw (.penSpeed v)
  | sendTo p => .draw (.sendTo p)
  | line a b => .draw (.line a b)
  | drawTo p => .draw (.drawTo p)
  | lines ps => .draw (.lines ps)
  | circle c d res => .draw (.circle c d ⟨res, .solid⟩)
  | fillCircle c d f res => .draw (.fillCircle c d ⟨res, f⟩)
  | wedge c d a b res => .draw (.wedge c d a b ⟨res, .solid⟩)
  | fillWedge c d a b f res => .draw (.fillWedge c d a b ⟨res, f⟩)
  | arc c s a b res => .draw (.arc c s a b ⟨res, .solid⟩)
  | rectangle p w h => .draw (.rectangle p w h)
  | fillRectangle p w h f => .draw (.fillRectangle p w h ⟨none, f⟩)
  | polygon ps => .draw (.polygon .polygon ps)
  | fillPolygon ps f => .draw (.fillPolygon .polygon ps ⟨none, f⟩)
  | label t p s => .draw (.label t p s)
  | park => .draw .park
  | raw t => .write t

/-- A plot job. -/
structure Job where
  /-- The settings of the job, if it has its own. -/
  plotter : Option Config
  operations : List Operation
  deriving DecidableEq

namespace Job

/-- The settings of a job: its own or the default. -/
def config (j : Job) : Config := j.plotter.getD default

/-- The calls of a job. -/
def requests (j : Job) : List Request := j.operations.map Operation.request

/-- All operations in order, up to the first failure of the sink. -/
def run (j : Job) (s : Session) : Session × Outcome := s.performAll j.requests

end Job

end HpGl
