import HpGl.Proofs.Delivery

/-!
# What a job writes

On a sink that takes everything a job always runs to its end. The sink then holds the first
statement of the session and after it what each operation writes, in the order of the job: a
refused operation writes nothing and is reported once.

* `Operation.statement`, `Operation.reportName?`: what an operation writes, and the name under which
  it is reported when it is refused; `request_compose`, `reportName?_of_refused`.
* `Session.Accepting`: the sink takes everything; `performAll_accepting`.
* `performAll_rejections`: the refusals of a run are those of its calls.
* **`job_writes`**: the bytes and the refusals of a job, whatever its operations are.
-/

namespace HpGl

/-- What a call is reported with when it is refused. -/
def Request.rejection? (t : Transform) (r : Request) : Option (String × String) :=
  match r.compose t with
  | .ok _ => none
  | .error cause => some (r.name, cause.message)

namespace Operation

/-- **The statement of an operation**: that of the drawing call it stands for, once its plain
numbers are checked, or the text of the caller. -/
def statement (t : Transform) : Operation → Checked Statement
  | pen slot => (Primitive.selectPen slot).compose t
  | lineType none _ => (Primitive.lineType none).compose t
  | lineType (some pattern) space => do
    (Primitive.lineType (← LineType.ofPattern pattern space)).compose t
  | fillType model spacing angle => do
    (Primitive.fillType (← Fill.ofModel model spacing angle)).compose t
  | style s => do (Primitive.applyStyle (← s.validate)).compose t
  | rotate theta => (Primitive.rotate theta).compose t
  | speed v => (Primitive.penSpeed v).compose t
  | sendTo p => (Primitive.sendTo p).compose t
  | line a b => (Primitive.line a b).compose t
  | drawTo p => (Primitive.drawTo p).compose t
  | lines ps => (Primitive.lines ps).compose t
  | circle p d res => (Primitive.circle p d ⟨res, .solid⟩).compose t
  | fillCircle p d f res => (Primitive.fillCircle p d ⟨res, f⟩).compose t
  | wedge p d start sweep res => (Primitive.wedge p d start sweep ⟨res, .solid⟩).compose t
  | fillWedge p d start sweep f res => (Primitive.fillWedge p d start sweep ⟨res, f⟩).compose t
  | arc p size start stop res => (Primitive.arc p size start stop ⟨res, .solid⟩).compose t
  | rectangle p w h => (Primitive.rectangle p w h).compose t
  | fillRectangle p w h f => (Primitive.fillRectangle p w h ⟨none, f⟩).compose t
  | polygon ps => (Primitive.polygon .polygon ps).compose t
  | fillPolygon ps f => (Primitive.fillPolygon .polygon ps ⟨none, f⟩).compose t
  | label text p size => (Primitive.label text p size).compose t
  | park => (Primitive.park).compose t
  | raw text => .ok ⟨text⟩

/-- **The name under which a refused operation is reported.** Rotating, parking and the text of the
caller are never refused. -/
def reportName? : Operation → Option String
  | pen _ => some "select_pen"
  | lineType _ _ => some "line_type"
  | fillType _ _ _ => some "fill_type"
  | style _ => some "apply_style"
  | speed _ => some "pen_speed"
  | sendTo _ => some "send_to"
  | line _ _ => some "draw_line"
  | drawTo _ => some "draw_to"
  | lines _ => some "draw_lines"
  | circle _ _ _ => some "draw_circle"
  | fillCircle _ _ _ _ => some "fill_circle"
  | wedge _ _ _ _ _ => some "draw_wedge"
  | fillWedge _ _ _ _ _ _ => some "fill_wedge"
  | arc _ _ _ _ _ => some "draw_arc"
  | rectangle _ _ _ => some "draw_rect"
  | fillRectangle _ _ _ _ => some "fill_rect"
  | polygon _ => some "draw_poly"
  | fillPolygon _ _ => some "fill_poly"
  | label _ _ _ => some "label"
  | rotate _ => none
  | park => none
  | raw _ => none

/-- The bytes that an operation writes. -/
def written (t : Transform) (op : Operation) : List UInt8 :=
  match op.statement t with
  | .ok st => st.bytes
  | .error _ => []

/-- The report of an operation, if it is refused: its name and the wording of the cause. -/
def rejection? (t : Transform) (op : Operation) : Option (String × String) :=
  match op.statement t with
  | .ok _ => none
  | .error cause => op.reportName?.map fun name => (name, cause.message)

/-- The operation is not refused. -/
def accepted (t : Transform) (op : Operation) : Bool :=
  match op.statement t with
  | .ok _ => true
  | .error _ => false

variable (t : Transform) (op : Operation)

/-- **The call that an operation makes composes the statement of the operation.** -/
theorem request_compose : op.request.compose t = op.statement t := by
  cases op with
  | lineType pattern space => cases pattern <;> rfl
  | _ => rfl

theorem reportName?_of_refused {cause : Refusal} (h : op.statement t = .error cause) :
    op.reportName? = some op.request.name := by
  cases op with
  | lineType pattern space => cases pattern <;> rfl
  | rotate theta => nomatch h
  | park => nomatch h
  | raw text => nomatch h
  | _ => rfl

theorem composed_request : op.request.composed t = op.written t := by
  rcases h : op.statement t <;> simp only [Request.composed, written, request_compose, h]

theorem rejection?_request : op.request.rejection? t = op.rejection? t := by
  unfold Request.rejection? rejection?
  rw [request_compose]
  rcases h : op.statement t with cause | st
  · simp only [reportName?_of_refused t op h, Option.map_some]
  · rfl

theorem written_of_not_accepted (h : op.accepted t = false) : op.written t = [] := by
  unfold accepted at h
  unfold written
  split at h
  · exact Bool.noConfusion h
  · rfl

theorem rejection?_of_accepted (h : op.accepted t = true) : op.rejection? t = none := by
  unfold accepted at h
  unfold rejection?
  split at h
  · rfl
  · exact Bool.noConfusion h

end Operation

/-! ## A sink that takes everything -/

/-- The sink of the session takes everything. -/
def Session.Accepting (s : Session) : Prop := s.sink.writes = [] ∧ s.sink.flushes = []

theorem Sink.send_accepting {s : Sink} (hw : s.writes = []) (hf : s.flushes = [])
    (bytes : List UInt8) :
    (s.send bytes).2.result = .ok () ∧ (s.send bytes).1.writes = [] ∧
      (s.send bytes).1.flushes = [] := by
  obtain ⟨writes, flushes, taken⟩ := s
  subst hw hf
  cases bytes with
  | nil => exact ⟨rfl, rfl, rfl⟩
  | cons b bs => exact ⟨rfl, rfl, rfl⟩

namespace Session

variable {s : Session}

theorem perform_accepting (hs : s.Accepting) (r : Request) :
    (s.perform r).2.delivery.result = .ok () ∧ (s.perform r).1.Accepting := by
  rcases h : r.compose s.transform with cause | st
  · rw [perform_of_error h]
    exact ⟨rfl, hs⟩
  · rw [perform_of_ok h]
    exact Sink.send_accepting hs.1 hs.2 st.bytes

theorem performAll_accepting (hs : s.Accepting) (rs : List Request) :
    (s.performAll rs).2.delivery.result = .ok () := by
  induction rs generalizing s with
  | nil => rfl
  | cons r rs ih =>
    obtain ⟨hr, hs'⟩ := perform_accepting hs r
    rw [performAll_cons_of_ok rs hr]
    exact ih hs'

/-- **The sink holds what the calls compose**, in their order. -/
theorem taken_performAll (hs : s.Accepting) (rs : List Request) :
    (s.performAll rs).1.sink.taken =
      s.sink.taken ++ rs.flatMap (Request.composed s.transform) := by
  rw [performAll_taken, (s.performAll_sent_prefix rs).2 (performAll_accepting hs rs)]

theorem perform_rejections (s : Session) (r : Request) :
    (s.perform r).2.events.filterMap Event.rejection? = (r.rejection? s.transform).toList := by
  rcases h : r.compose s.transform with cause | st
  · rw [perform_of_error h, Request.rejection?, h]
    rfl
  · rw [perform_of_ok h, Request.rejection?, h, events_deliver]
    cases s.config.debug <;> rfl

/-- **Every refused call is reported once, in order, and nothing else is.** -/
theorem performAll_rejections (hs : s.Accepting) (rs : List Request) :
    (s.performAll rs).2.events.filterMap Event.rejection? =
      rs.filterMap (Request.rejection? s.transform) := by
  induction rs generalizing s with
  | nil => rfl
  | cons r rs ih =>
    obtain ⟨hr, hs'⟩ := perform_accepting hs r
    have ht := (s.perform_step r).transform_eq
    rw [performAll_cons_of_ok rs hr, Outcome.events_andThen, List.filterMap_append,
      perform_rejections, ih hs', ht, List.filterMap_cons]
    cases r.rejection? s.transform <;> rfl

end Session

/-! ## The job -/

namespace Operation

theorem flatMap_written_filter (t : Transform) (ops : List Operation) :
    (ops.filter (accepted t)).flatMap (written t) = ops.flatMap (written t) := by
  induction ops with
  | nil => rfl
  | cons op ops ih =>
    rw [List.filter_cons]
    split
    · rw [List.flatMap_cons, List.flatMap_cons, ih]
    · rename_i h
      rw [List.flatMap_cons, written_of_not_accepted t op (Bool.eq_false_iff.mpr h), ih,
        List.nil_append]

theorem filterMap_rejection?_filter (t : Transform) (ops : List Operation) :
    (ops.filter (accepted t)).filterMap (rejection? t) = [] := by
  rw [List.filterMap_eq_nil_iff]
  intro op hop
  exact rejection?_of_accepted t op (List.mem_filter.mp hop).2

end Operation

theorem Job.flatMap_requests (t : Transform) (j : Job) :
    j.requests.flatMap (Request.composed t) = j.operations.flatMap (Operation.written t) := by
  rw [requests, List.flatMap_map]
  exact congrArg (j.operations.flatMap ·) (funext fun op => op.composed_request t)

theorem Job.filterMap_requests (t : Transform) (j : Job) :
    j.requests.filterMap (Request.rejection? t) =
      j.operations.filterMap (Operation.rejection? t) := by
  rw [requests, List.filterMap_map]
  exact congrArg (j.operations.filterMap ·) (funext fun op => op.rejection?_request t)

theorem Session.start_accepting (c : Config) (hc : c.hasValidScale = true) :
    ∃ s o, Session.start c .accepting = .ok (s, o) ∧ s.Accepting ∧ s.transform = .ofConfig c ∧
      s.sink.taken = "IN;".toUTF8.toList ∧ o.events.filterMap Event.rejection? = [] := by
  have step := Session.perform_step ⟨c, .accepting⟩ (.draw .reset)
  have hr := Session.perform_accepting (s := ⟨c, .accepting⟩) ⟨rfl, rfl⟩ (.draw .reset)
  have he := Session.perform_rejections ⟨c, .accepting⟩ (.draw .reset)
  have hv : c.validate = .ok () := if_pos hc
  refine ⟨_, _, ?_, hr.2, step.transform_eq, ?_, he⟩
  · simp only [Session.start, hv, hr.1]
  · rw [step.taken_eq, step.sent_eq hr.1, Request.composed_reset]
    rfl

/-- **What a job writes.** On a sink that takes everything a session opens and the job runs to its
end. The sink then holds `IN;` and what the operations write, in their order; the reports are those
of the refused operations, in their order. Without its refused operations the job writes the same
and is reported nowhere, and what an operation writes does not depend on the operations around
it. -/
theorem job_writes (c : Config) (hc : c.hasValidScale = true) (j : Job) :
    ∃ s o, Session.start c .accepting = .ok (s, o) ∧ (j.run s).2.delivery.result = .ok () ∧
      (j.run s).1.sink.taken =
        "IN;".toUTF8.toList ++ j.operations.flatMap (Operation.written (.ofConfig c)) ∧
      (o.events ++ (j.run s).2.events).filterMap Event.rejection? =
        j.operations.filterMap (Operation.rejection? (.ofConfig c)) ∧
      (∀ k : Job, k.operations = j.operations.filter (Operation.accepted (.ofConfig c)) →
        (k.run s).1.sink.taken = (j.run s).1.sink.taken ∧
          (o.events ++ (k.run s).2.events).filterMap Event.rejection? = []) ∧
      ∀ (k l : Job) op, j.operations = k.operations ++ op :: l.operations →
        (j.run s).1.sink.taken = (k.run s).1.sink.taken ++ op.written (.ofConfig c) ++
          (l.run s).1.sink.taken.drop s.sink.taken.length := by
  obtain ⟨s, o, hs, ha, ht, hsink, he⟩ := Session.start_accepting c hc
  have taken (k : Job) : (k.run s).1.sink.taken =
      "IN;".toUTF8.toList ++ k.operations.flatMap (Operation.written (.ofConfig c)) := by
    rw [Job.run, Session.taken_performAll ha, ht, hsink, k.flatMap_requests]
  have rejections (k : Job) : (o.events ++ (k.run s).2.events).filterMap Event.rejection? =
      k.operations.filterMap (Operation.rejection? (.ofConfig c)) := by
    rw [List.filterMap_append, he, List.nil_append, Job.run, Session.performAll_rejections ha, ht,
      k.filterMap_requests]
  refine ⟨s, o, hs, Session.performAll_accepting ha _, taken j, rejections j, ?_, ?_⟩
  · intro k hk
    rw [taken, taken, rejections, hk]
    exact ⟨congrArg _ (Operation.flatMap_written_filter _ _),
      Operation.filterMap_rejection?_filter _ _⟩
  · intro k l op h
    rw [taken, taken, taken, h, hsink, List.drop_left, List.flatMap_append, List.flatMap_cons]
    simp only [List.append_assoc]

/-- A job of which a pen, a line pattern and a speed are refused. -/
theorem job_writes_refused :
    Config.letter.hasValidScale = true ∧
      ∃ s o, Session.start .letter .accepting = .ok (s, o) ∧
        ((Job.mk none [.pen 9, .pen 1, .lineType (some 7) none, .raw "RO;", .speed (0 / 0),
          .sendTo ⟨1.5, -2⟩, .park]).run s).1.sink.taken =
            "IN;SP1;RO;PU1.5,-2;PU;SP0;".toUTF8.toList ∧
        (o.events ++ ((Job.mk none [.pen 9, .pen 1, .lineType (some 7) none, .raw "RO;",
          .speed (0 / 0), .sendTo ⟨1.5, -2⟩, .park]).run s).2.events).filterMap Event.rejection? =
            [("select_pen", "pen slot 9 is not a valid pen slot (expected 0-6)"),
              ("line_type", "line type 7 is not a valid pattern (expected 0-6)"),
              ("pen_speed", "pen speed must be a positive number of cm/s, got NaN")] := by
  have hc : Config.letter.hasValidScale = true := by decide
  obtain ⟨s, o, hs, -, taken, rejections, -⟩ := job_writes .letter hc ⟨none, [.pen 9, .pen 1,
    .lineType (some 7) none, .raw "RO;", .speed (0 / 0), .sendTo ⟨1.5, -2⟩, .park]⟩
  exact ⟨hc, s, o, hs, taken.trans (by decide +kernel), rejections.trans (by decide +kernel)⟩

end HpGl
