import HpGl.Proofs.JobOutput
import Mathlib.Data.List.Forall2

/-!
# Statements in the reports of a session

With `debug` a session reports each statement before it sends it, and nothing else hangs on `debug`:
the same session without it does the same, less the reports of statements.

* `Config.quiet`, `Session.quiet`, `Outcome.quiet`: settings without `debug`, a session under them,
  an outcome less the reports of statements.
* `perform_quiet`, `performEach_quiet`, `performAll_quiet`, `start_quiet`: a call, calls one after
  the other, a run and an opening without `debug`.
* `perform_loud`, `performEach_loud`: with `debug` a call first reports what it composes or why it
  is refused, and then turns to the sink.
* **`session_statement_log`**: two sessions that differ in `debug` only, on any sink.
-/

namespace HpGl

/-- The statement that is reported. -/
def Event.statement? : Event → Option Statement
  | statement st => some st
  | rejected _ _ => none

/-- Everything but the report of a statement. -/
def Effect.isQuiet : Effect → Bool
  | report (.statement _) => false
  | _ => true

/-- The settings without `debug`. -/
def Config.quiet (c : Config) : Config := { c with debug := false }

/-- The session without `debug`. -/
def Session.quiet (s : Session) : Session := { s with config := s.config.quiet }

/-- The outcome less the reports of statements. -/
def Outcome.quiet (o : Outcome) : Outcome :=
  { o with effects := o.effects.filter Effect.isQuiet }

namespace Outcome

variable (o : Outcome)

theorem quiet_andThen (a b : Outcome) : (a.andThen b).quiet = a.quiet.andThen b.quiet := by
  simp [quiet, andThen]

theorem quiet_of_effects {d : Delivery} {es : List Effect} (hes : ∀ e ∈ es, e.isQuiet = false) :
    quiet ⟨es ++ d.effects, d⟩ = ⟨d.effects, d⟩ := by
  have hd : ∀ e ∈ d.effects, e.isQuiet = true := by
    intro e he
    simp only [Delivery.effects, List.mem_append, List.mem_map, List.mem_replicate] at he
    rcases he with ⟨c, -, rfl⟩ | ⟨-, rfl⟩ <;> rfl
  have hes' : es.filter Effect.isQuiet = [] := by
    rw [List.filter_eq_nil_iff]
    intro e he
    simp [hes e he]
  simp [quiet, hes', List.filter_eq_self.mpr hd]

theorem rejections_quiet :
    o.quiet.events.filterMap Event.rejection? = o.events.filterMap Event.rejection? := by
  simp only [quiet, events, List.filterMap_filterMap, List.filterMap_filter]
  apply List.filterMap_congr
  intro e _
  rcases e with (st | ⟨op, cause⟩) | call | _ <;> rfl

theorem statements_quiet : o.quiet.events.filterMap Event.statement? = [] := by
  rw [List.filterMap_eq_nil_iff]
  intro e he
  simp only [quiet, events, List.mem_filterMap, List.mem_filter] at he
  obtain ⟨f, ⟨-, hf⟩, hfe⟩ := he
  rcases f with (st | ⟨op, cause⟩) | call | _ <;> cases hfe
  · exact Bool.noConfusion hf
  · rfl

end Outcome

/-! ## Without `debug` -/

namespace Session

variable (s : Session)

@[simp] theorem transform_quiet : s.quiet.transform = s.transform := rfl

/-- **A call without `debug`** leads to the same sink, and is the call with it less the report of a
statement. -/
theorem perform_quiet (r : Request) :
    s.quiet.perform r = ((s.perform r).1.quiet, (s.perform r).2.quiet) := by
  rcases h : r.compose s.transform with cause | st
  · rw [perform_of_error h, perform_of_error (s := s.quiet) h]
    rfl
  · rw [perform_of_ok h, perform_of_ok (s := s.quiet) h]
    refine Prod.ext rfl ?_
    change _ = Outcome.quiet ⟨_ ++ _, _⟩
    rw [Outcome.quiet_of_effects]
    · rfl
    · intro e he
      split at he
      · cases List.mem_singleton.mp he
        rfl
      · cases he

theorem performEach_quiet (rs : List Request) :
    s.quiet.performEach rs =
      ((s.performEach rs).1.quiet, (s.performEach rs).2.map Outcome.quiet) := by
  induction rs generalizing s with
  | nil => rfl
  | cons r rs ih => simp only [performEach_cons, perform_quiet, ih, List.map_cons]

theorem performAll_quiet (rs : List Request) :
    s.quiet.performAll rs = ((s.performAll rs).1.quiet, (s.performAll rs).2.quiet) := by
  induction rs generalizing s with
  | nil => rfl
  | cons r rs ih =>
    -- The result of a call does not hang on `debug`, so both runs stop at the same call.
    have hq := s.perform_quiet r
    rcases h : (s.perform r).2.delivery.result with f | _
    · rw [performAll_cons_of_error rs h, performAll_cons_of_error rs (by rw [hq]; exact h), hq]
    · rw [performAll_cons_of_ok rs h, performAll_cons_of_ok rs (by rw [hq]; exact h), hq, ih,
        Outcome.quiet_andThen]

theorem start_quiet (c : Config) (sink : Sink) :
    start c.quiet sink =
      match start c sink with
      | .error (.refused cause) => .error (.refused cause)
      | .error (.undelivered o f) => .error (.undelivered o.quiet f)
      | .ok (s, o) => .ok (s.quiet, o.quiet) := by
  have hq : perform ⟨c.quiet, sink⟩ (.draw .reset) = _ := perform_quiet ⟨c, sink⟩ (.draw .reset)
  have hv : c.quiet.validate = c.validate := rfl
  rw [start_eq, start_eq, hq, hv]
  rcases c.validate with cause | _
  · rfl
  · rcases hr : (perform ⟨c, sink⟩ (.draw .reset)).2.delivery.result with f | _ <;>
      simp only [Outcome.quiet, hr]

end Session

/-! ## With `debug` -/

namespace Request

variable (t : Transform) (r : Request)

/-- The statement that a call composes, if it is not refused. -/
def statement? : Option Statement := (r.compose t).toOption

/-- What a call reports with `debug`: the statement that it composes, or why it is refused. -/
def report : Event :=
  match r.compose t with
  | .ok st => .statement st
  | .error cause => .rejected r.name cause

theorem statement?_report : (r.report t).statement? = r.statement? t := by
  rcases h : r.compose t <;> simp [report, statement?, h, Event.statement?, Except.toOption]

theorem composed_eq_statement : r.composed t = ((r.statement? t).map Statement.bytes).getD [] := by
  rcases h : r.compose t <;> simp [composed, statement?, h, Except.toOption]

theorem flatMap_composed (rs : List Request) :
    rs.flatMap (composed t) = (rs.filterMap (statement? t)).flatMap Statement.bytes := by
  induction rs with
  | nil => rfl
  | cons r rs ih =>
    rw [List.flatMap_cons, composed_eq_statement, ih]
    rcases h : r.statement? t <;> simp [h]

end Request

/-- **A call that is logged**: it reports what it composes or why it is refused, and only then
turns to the sink. -/
def Outcome.Logs (t : Transform) (r : Request) (o : Outcome) : Prop :=
  o.effects = .report (r.report t) :: o.delivery.effects

namespace Session

variable {s : Session}

/-- **With `debug` every call is logged**, whatever the sink returns. -/
theorem perform_loud (hs : s.config.debug = true) (r : Request) :
    (s.perform r).2.Logs s.transform r := by
  unfold Outcome.Logs Request.report
  rcases h : r.compose s.transform with cause | st
  · rw [perform_of_error h]
    rfl
  · rw [perform_of_ok h]
    simp [deliver, hs]

theorem performEach_loud (hs : s.config.debug = true) (rs : List Request) :
    List.Forall₂ (Outcome.Logs s.transform) rs (s.performEach rs).2 := by
  induction rs generalizing s with
  | nil => exact .nil
  | cons r rs ih =>
    have step := s.perform_step r
    have rest := ih (s := (s.perform r).1) (by rw [step.config_eq, hs])
    rw [step.transform_eq] at rest
    exact .cons (perform_loud hs r) rest

theorem taken_performEach {rs : List Request}
    (h : ∀ o ∈ (s.performEach rs).2, o.delivery.result = .ok ()) :
    (s.performEach rs).1.sink.taken =
      s.sink.taken ++ rs.flatMap (Request.composed s.transform) := by
  induction rs generalizing s with
  | nil => exact (List.append_nil _).symm
  | cons r rs ih =>
    have step := s.perform_step r
    obtain ⟨hr, hrs⟩ := List.forall_mem_cons.mp h
    rw [performEach_cons, ih hrs, step.taken_eq, step.sent_eq hr, step.transform_eq,
      List.append_assoc, List.flatMap_cons]

theorem performEach_ok (hs : s.Accepting) (rs : List Request) :
    ∀ o ∈ (s.performEach rs).2, o.delivery.result = .ok () := by
  induction rs generalizing s with
  | nil => exact nofun
  | cons r rs ih =>
    obtain ⟨hr, hs'⟩ := perform_accepting hs r
    exact List.forall_mem_cons.mpr ⟨hr, ih hs'⟩

end Session

theorem Session.start_of_exhausted {c : Config} {sink : Sink} (hc : c.hasValidScale = true)
    (hw : sink.writes = []) (hf : sink.flushes = []) :
    ∃ s a, Session.start c sink = .ok (s, a) := by
  have hok := (Session.perform_accepting (s := ⟨c, sink⟩) ⟨hw, hf⟩ (.draw .reset)).1
  exact ⟨_, _, Session.start_eq_ok.mpr ⟨if_pos hc, rfl, hok⟩⟩

theorem Outcome.statements_of_logs {t : Transform} {rs : List Request} {os : List Outcome}
    (h : List.Forall₂ (Outcome.Logs t) rs os) :
    (os.flatMap Outcome.events).filterMap Event.statement? =
      rs.filterMap (Request.statement? t) := by
  induction h with
  | nil => rfl
  | @cons r o rs os ho _ ih =>
    have hevents : o.events = [r.report t] := by
      rw [Outcome.events, ho, List.filterMap_cons, Delivery.filterMap_event?_effects]
      rfl
    rw [List.flatMap_cons, List.filterMap_append, ih, hevents, List.filterMap_cons,
      Request.statement?_report, List.filterMap_cons]
    cases r.statement? t <;> rfl

/-! ## Two sessions -/

/-- **Calls with and without `debug`**, outcome by outcome. -/
structure Session.Shadows (t : Transform) (rs : List Request) (on off : List Outcome) : Prop where
  /-- Both return the same, call the sink alike and offer it the same bytes. -/
  deliveries : on.map Outcome.delivery = off.map Outcome.delivery
  /-- Both report the same refusals, in the same order. -/
  rejections : (on.flatMap Outcome.events).filterMap Event.rejection? =
    (off.flatMap Outcome.events).filterMap Event.rejection?
  /-- Without `debug` nothing is left out but the reports of statements. -/
  quiet : off = on.map Outcome.quiet
  /-- Without `debug` no statement is reported. -/
  silent : (off.flatMap Outcome.events).filterMap Event.statement? = []
  /-- With `debug` every call reports before it turns to the sink. -/
  logs : List.Forall₂ (Outcome.Logs t) rs on
  /-- With `debug` the statements reported are those composed, in the order of the calls. -/
  statements : (on.flatMap Outcome.events).filterMap Event.statement? =
    rs.filterMap (Request.statement? t)

theorem Session.shadows {t : Transform} {rs : List Request} {on : List Outcome}
    (h : List.Forall₂ (Outcome.Logs t) rs on) : Session.Shadows t rs on (on.map Outcome.quiet) where
  deliveries := by
    rw [List.map_map]
    rfl
  rejections := by
    rw [List.flatMap_map, List.filterMap_flatMap, List.filterMap_flatMap]
    exact List.flatMap_congr fun o _ => o.rejections_quiet.symm
  quiet := rfl
  silent := by
    rw [List.flatMap_map, List.filterMap_flatMap, List.flatMap_eq_nil_iff]
    exact fun o _ => o.statements_quiet
  logs := h
  statements := Outcome.statements_of_logs h

/-- **`debug` changes nothing but the reports of statements, and these are complete.** Of two
sessions whose settings differ in `debug` only, on a sink with any script, either both open or
neither does. Call by call they do the same, and each statement is reported before it is sent, from
`IN;` on. Where every call succeeds the reports are the output. That is so on a sink that takes
everything, and there both open if the scale is valid. -/
theorem session_statement_log (c : Config) (sink : Sink) (rs : List Request) :
    (match Session.start { c with debug := true } sink,
      Session.start { c with debug := false } sink with
    | .error (.refused cause), .error (.refused cause') =>
      cause = cause' ∧ c.validate = .error cause
    | .error (.undelivered a f), .error (.undelivered b g) =>
      f = g ∧ a.delivery.result = .error f ∧
        Session.Shadows (.ofConfig c) [.draw .reset] [a] [b]
    | .ok (s, a), .ok (s', b) =>
      Session.Shadows (.ofConfig c) (.draw .reset :: rs) (a :: (s.performEach rs).2)
          (b :: (s'.performEach rs).2) ∧
        (s.performEach rs).1.sink = (s'.performEach rs).1.sink ∧
        ((a :: (s.performEach rs).2).flatMap Outcome.events).filterMap Event.statement? =
          ⟨"IN;"⟩ :: rs.filterMap (Request.statement? (.ofConfig c)) ∧
        ((∀ o ∈ (s.performEach rs).2, o.delivery.result = .ok ()) →
          (s.performEach rs).1.sink.taken = sink.taken ++
            (((a :: (s.performEach rs).2).flatMap Outcome.events).filterMap
              Event.statement?).flatMap Statement.bytes) ∧
        (sink.writes = [] → sink.flushes = [] →
          ∀ o ∈ (s.performEach rs).2, o.delivery.result = .ok ())
    | _, _ => False) ∧
      (c.hasValidScale = true → sink.writes = [] → sink.flushes = [] →
        ∃ s a s' b, Session.start { c with debug := true } sink = .ok (s, a) ∧
          Session.start { c with debug := false } sink = .ok (s', b)) := by
  -- The session without `debug` is the image of the one with it: what follows is about the latter.
  have hquiet : ({ c with debug := false } : Config) = Config.quiet { c with debug := true } := rfl
  have loud := Session.perform_loud (s := ⟨{ c with debug := true }, sink⟩) rfl (.draw .reset)
  refine ⟨?_, fun hc hw hf => ?_⟩
  rotate_left
  · obtain ⟨s, a, hon⟩ := Session.start_of_exhausted (c := { c with debug := true }) hc hw hf
    obtain ⟨s', b, hoff⟩ := Session.start_of_exhausted (c := { c with debug := false }) hc hw hf
    exact ⟨s, a, s', b, hon, hoff⟩
  rw [hquiet, Session.start_quiet]
  rcases hstart : Session.start { c with debug := true } sink with (cause | ⟨a, f⟩) | ⟨s, a⟩
  · exact ⟨rfl, (Session.start_eq_refused (c := { c with debug := true })).mp hstart⟩
  · obtain ⟨-, rfl, hf⟩ := Session.start_eq_undelivered.mp hstart
    exact ⟨rfl, hf, Session.shadows (.cons loud .nil)⟩
  · obtain ⟨-, hp, hok⟩ := Session.start_eq_ok.mp hstart
    rw [hp] at loud
    have step := Session.start_step hstart
    have ht : s.transform = .ofConfig c := step.transform_eq
    have hlogs := Session.performEach_loud (s := s) (by rw [step.config_eq]) rs
    rw [ht] at hlogs
    have shadows := Session.shadows (.cons loud hlogs)
    refine ⟨?_, ?_, shadows.statements, ?_, ?_⟩
    · rw [Session.performEach_quiet]
      exact shadows
    · rw [Session.performEach_quiet]
      rfl
    · intro h
      rw [Session.taken_performEach h, step.taken_eq, step.sent_eq hok, ht, shadows.statements,
        ← Request.flatMap_composed, List.append_assoc]
      rfl
    · intro hw hf
      have accepting := Session.perform_accepting (s := ⟨{ c with debug := true }, sink⟩) ⟨hw, hf⟩
        (.draw .reset)
      rw [hp] at accepting
      exact Session.performEach_ok accepting.2 rs

/-- A refused pen, a text of the caller's and a style with nothing in it: what is reported with
`debug` is what both sinks have taken. -/
theorem session_statement_log_calls :
    let rs : List Request :=
      [.draw (.selectPen 1), .draw (.selectPen 9), .write "RO;", .applyRawStyle ⟨none, none, none⟩,
        .draw .park]
    Config.letter.hasValidScale = true ∧
      ∃ s a s' b, Session.start { Config.letter with debug := true } .accepting = .ok (s, a) ∧
        Session.start { Config.letter with debug := false } .accepting = .ok (s', b) ∧
        ((a :: (s.performEach rs).2).flatMap Outcome.events).filterMap Event.statement? =
          [⟨"IN;"⟩, ⟨"SP1;"⟩, ⟨"RO;"⟩, ⟨""⟩, ⟨"PU;SP0;"⟩] ∧
        ((b :: (s'.performEach rs).2).flatMap Outcome.events).filterMap Event.statement? = [] ∧
        (s.performEach rs).1.sink.taken = "IN;SP1;RO;PU;SP0;".toUTF8.toList ∧
        (s'.performEach rs).1.sink.taken = "IN;SP1;RO;PU;SP0;".toUTF8.toList := by
  intro rs
  have hc : Config.letter.hasValidScale = true := by decide
  obtain ⟨hmatch, hopen⟩ := session_statement_log .letter .accepting rs
  obtain ⟨s, a, s', b, hon, hoff⟩ := hopen hc rfl rfl
  rw [hon, hoff] at hmatch
  obtain ⟨shadows, hsink, hstatements, htaken, hok⟩ := hmatch
  have hreported := hstatements.trans
    (show _ = [⟨"IN;"⟩, ⟨"SP1;"⟩, ⟨"RO;"⟩, ⟨""⟩, ⟨"PU;SP0;"⟩] by decide +kernel)
  have hall := htaken (hok rfl rfl)
  rw [hreported] at hall
  have hbytes : (s.performEach rs).1.sink.taken = "IN;SP1;RO;PU;SP0;".toUTF8.toList :=
    hall.trans (by decide +kernel)
  exact ⟨hc, s, a, s', b, hon, hoff, hreported, shadows.silent, hbytes, hsink ▸ hbytes⟩

end HpGl
