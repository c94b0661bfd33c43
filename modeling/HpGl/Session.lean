import HpGl.Diagnostics
import HpGl.Primitive
import HpGl.Sink

/-!
# Plot sessions

A session binds settings, a sink and the reports. A call composes its whole statement and sends it
in one piece. A call with bad arguments is reported and sends nothing, and the session goes on; only
a fault of the sink is a failure.

* `Request`: the calls of a session.
* `Request.compose`: what a call sends, or why it is refused, and under which name.
* `Effect`, `Outcome`: what a call does, in its order.
* `Session.start`, `Session.perform`: opening a session, and one call.
* `Session.performAll`: calls up to the first failure.
-/

namespace HpGl

/-- A call of a session. -/
inductive Request where
  | draw (p : Primitive)
  /-- A line pattern by its number. -/
  | lineTypeMode (mode : Int32) (spacePercent : Option Float)
  /-- A fill by its model number. -/
  | fillTypeMode (model : Int32) (spacing angle : Option Float)
  /-- An unchecked style. -/
  | applyRawStyle (style : RawStyle)
  /-- Text of the caller's. -/
  | write (text : String)
  /-- A statement of the caller's. -/
  | send (s : Statement)
  deriving DecidableEq

/-- The name under which a refused drawing call is reported. -/
def Primitive.name : Primitive → String
  | reset => "initialize"
  | park => "park"
  | selectPen _ => "select_pen"
  | lineType _ => "line_type"
  | rotate _ => "rotate"
  | penSpeed _ => "pen_speed"
  | fillType _ => "fill_type"
  | applyStyle _ => "apply_style"
  | sendTo _ => "send_to"
  | line _ _ => "draw_line"
  | drawTo _ => "draw_to"
  | lines _ => "draw_lines"
  | circle .. => "draw_circle"
  | fillCircle .. => "fill_circle"
  | wedge .. => "draw_wedge"
  | fillWedge .. => "fill_wedge"
  | arc .. => "draw_arc"
  | rectangle .. => "draw_rect"
  | fillRectangle .. => "fill_rect"
  | polygon .shape _ => "draw_shape"
  | polygon _ _ => "draw_poly"
  | fillPolygon .shape _ _ => "fill_shape"
  | fillPolygon .. => "fill_poly"
  | label .. => "label"

namespace Request

/-- The name under which a refused call is reported. -/
def name : Request → String
  | draw p => p.name
  | lineTypeMode .. => "line_type"
  | fillTypeMode .. => "fill_type"
  | applyRawStyle _ => "apply_style"
  | write _ => "write"
  | send _ => "send"

/-- What a call sends. -/
def compose (t : Transform) : Request → Checked Statement
  | draw p => p.compose t
  | lineTypeMode mode space => do
    (Primitive.lineType (← LineType.ofPattern mode space)).compose t
  | fillTypeMode model spacing angle => do
    (Primitive.fillType (← Fill.ofModel model spacing angle)).compose t
  | applyRawStyle s => do (Primitive.applyStyle (← s.validate)).compose t
  | write text => .ok ⟨text⟩
  | send s => .ok s

end Request

/-- A session. -/
structure Session where
  config : Config
  sink : Sink

/-- Something that others can see of a session: a report, or a call of the sink. -/
inductive Effect where
  | report (e : Event)
  | write (call : WriteCall)
  | flush

/-- The report that an effect is. -/
def Effect.event? : Effect → Option Event
  | report e => some e
  | _ => none

/-- The calls of the sink for a statement: the flush comes last. -/
def Delivery.effects (d : Delivery) : List Effect :=
  d.writes.map .write ++ List.replicate d.flushes .flush

@[simp] theorem Delivery.filterMap_event?_effects (d : Delivery) :
    d.effects.filterMap Effect.event? = [] := by
  simp [effects, Effect.event?]

/-- What a call did, and what became of its statement. -/
structure Outcome where
  /-- What others could see of it, in its order. -/
  effects : List Effect
  delivery : Delivery

namespace Outcome

/-- What was reported. -/
def events (o : Outcome) : List Event := o.effects.filterMap Effect.event?

/-- Nothing was sent, and nothing failed. -/
def silent (events : List Event) : Outcome := ⟨events.map .report, ⟨[], [], 0, .ok ()⟩⟩

/-- One call and then another, whose result counts. -/
def andThen (a b : Outcome) : Outcome where
  effects := a.effects ++ b.effects
  delivery :=
    { sent := a.delivery.sent ++ b.delivery.sent
      writes := a.delivery.writes ++ b.delivery.writes
      flushes := a.delivery.flushes + b.delivery.flushes
      result := b.delivery.result }

@[simp] theorem events_silent (events : List Event) : (silent events).events = events := by
  simp [silent, Outcome.events, List.filterMap_map, Function.comp_def, Effect.event?]

@[simp] theorem events_andThen (a b : Outcome) : (a.andThen b).events = a.events ++ b.events :=
  List.filterMap_append

end Outcome

/-- Why a session does not open. -/
inductive StartFailure where
  /-- The settings are refused, and nothing is sent. -/
  | refused (cause : Refusal)
  /-- The first statement was not delivered. -/
  | undelivered (outcome : Outcome) (fault : SinkFault)

namespace Session

/-- The transform of every call. -/
def transform (s : Session) : Transform := .ofConfig s.config

/-- Send a statement; with `debug` it is reported first. -/
def deliver (s : Session) (st : Statement) : Session × Outcome :=
  let report := if s.config.debug then [.report (.statement st)] else []
  let (sink, delivery) := s.sink.send st.bytes
  ({ s with sink }, ⟨report ++ delivery.effects, delivery⟩)

theorem events_deliver (s : Session) (st : Statement) :
    (s.deliver st).2.events = if s.config.debug then [.statement st] else [] := by
  cases h : s.config.debug <;> simp [deliver, Outcome.events, h, Effect.event?]

/-- One call. -/
def perform (s : Session) (r : Request) : Session × Outcome :=
  match r.compose s.transform with
  | .ok st => s.deliver st
  | .error cause => (s, .silent [.rejected r.name cause])

/-- Calls up to the first failure. -/
def performAll (s : Session) : List Request → Session × Outcome
  | [] => (s, .silent [])
  | r :: rs =>
    let (s, a) := s.perform r
    match a.delivery.result with
    | .error _ => (s, a)
    | .ok () =>
      let (s, b) := performAll s rs
      (s, a.andThen b)

/-- Open a session: check the settings, then send `IN;`. -/
def start (c : Config) (sink : Sink) : Except StartFailure (Session × Outcome) :=
  match c.validate with
  | .error cause => .error (.refused cause)
  | .ok () =>
    let (s, o) := perform ⟨c, sink⟩ (.draw .reset)
    match o.delivery.result with
    | .error f => .error (.undelivered o f)
    | .ok () => .ok (s, o)

end Session

end HpGl
