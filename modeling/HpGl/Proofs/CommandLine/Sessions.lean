import HpGl.Proofs.CommandLine.Inputs
import HpGl.Proofs.JobOutput

/-!
# The session of a run

A run plots its job in a session on its open output. The session ends well exactly if the scale is
valid and the output takes everything that is sent to it, one statement after the other.

* `Job.run_filter`: refused operations make no difference to a run.
* `Sink.TakesAll`: a sink takes texts; `Job.texts`: the texts of a session with a job.
* **`session_eq_success_iff`**: when a session ends well.
* `Job.Sends`: how a session of the library ends, and what its sink has taken by then;
  `sends_session`, `Job.Sends.isPrefix`.
* **`plot_failingAfter`**: what is offered to an output that fails.
-/

namespace HpGl

/-! ## Refused operations -/

theorem Session.performAll_refused (s : Session) {op : Operation} {cause : Refusal}
    (h : op.statement s.transform = .error cause) (rs : List Request) :
    (s.performAll (op.request :: rs)).1 = (s.performAll rs).1 ∧
      (s.performAll (op.request :: rs)).2.delivery = (s.performAll rs).2.delivery := by
  have hperform := perform_of_error ((Operation.request_compose _ op).trans h)
  have hok : (s.perform op.request).2.delivery.result = .ok () := by rw [hperform]; rfl
  rw [performAll_cons_of_ok _ hok, hperform]
  exact ⟨rfl, by simp [Outcome.andThen, Outcome.silent]⟩

/-- **Without its refused operations** a job leads to the same session and the same delivery,
whatever the sink does. -/
theorem Job.run_filter (s : Session) (j k : Job)
    (hk : k.operations = j.operations.filter (Operation.accepted s.transform)) :
    (k.run s).1 = (j.run s).1 ∧ (k.run s).2.delivery = (j.run s).2.delivery := by
  simp only [Job.run, Job.requests, hk]
  clear hk
  generalize j.operations = ops
  -- A refused operation leaves the session as it is, so both jobs go on from the same session.
  induction ops generalizing s with
  | nil => exact ⟨rfl, rfl⟩
  | cons op ops ih =>
    have ht := (s.perform_step op.request).transform_eq
    rw [List.filter_cons, List.map_cons]
    rcases h : op.statement s.transform with cause | st
    · have hrefused : op.accepted s.transform = false := by rw [Operation.accepted, h]
      obtain ⟨hsession, hdelivery⟩ := s.performAll_refused h (ops.map Operation.request)
      rw [hrefused, if_neg Bool.false_ne_true, hsession, hdelivery]
      exact ih s
    · have haccepted : op.accepted s.transform = true := by rw [Operation.accepted, h]
      rw [haccepted, if_pos rfl, List.map_cons]
      rcases hr : (s.perform op.request).2.delivery.result with f | _
      · rw [Session.performAll_cons_of_error _ hr, Session.performAll_cons_of_error _ hr]
        exact ⟨rfl, rfl⟩
      · obtain ⟨hsession, hdelivery⟩ := ih (s.perform op.request).1
        rw [ht] at hsession hdelivery
        rw [Session.performAll_cons_of_ok _ hr, Session.performAll_cons_of_ok _ hr]
        refine ⟨hsession, ?_⟩
        simp only [Outcome.andThen, hdelivery]

/-! ## What a sink has to take -/

/-- **A sink takes texts one after the other**: all bytes of each, and the flush behind it
succeeds. -/
inductive Sink.TakesAll : Sink → List (List UInt8) → Prop
  | nil (s : Sink) : TakesAll s []
  | cons {s : Sink} {text : List UInt8} {texts : List (List UInt8)}
      (whole : (s.send text).2.sent = text) (flushed : (s.flushes.headD .succeed).answer = .ok ())
      (rest : TakesAll (s.send text).1 texts) : TakesAll s (text :: texts)

theorem Sink.takesAll_cons {s : Sink} {text : List UInt8} {texts : List (List UInt8)} :
    s.TakesAll (text :: texts) ↔
      (s.send text).2.result = .ok () ∧ (s.send text).1.TakesAll texts := by
  rw [(s.send_delivers text).succeeded]
  constructor
  · rintro (_ | ⟨whole, flushed, rest⟩)
    exact ⟨⟨whole, flushed⟩, rest⟩
  · rintro ⟨⟨whole, flushed⟩, rest⟩
    exact .cons whole flushed rest

namespace Operation

/-- The texts that operations send: one for each that is not refused. -/
def texts (t : Transform) (ops : List Operation) : List (List UInt8) :=
  (ops.filter (accepted t)).map (written t)

variable {t : Transform} {op : Operation} {ops : List Operation}

theorem texts_cons_of_error {cause : Refusal} (h : op.statement t = .error cause) :
    texts t (op :: ops) = texts t ops := by
  simp [texts, accepted, h]

theorem texts_cons_of_ok {st : Statement} (h : op.statement t = .ok st) :
    texts t (op :: ops) = st.bytes :: texts t ops := by
  simp [texts, accepted, written, h]

end Operation

/-- The texts of a session with a job: the first statement, and those of the operations. -/
def Job.texts (j : Job) (c : Config) : List (List UInt8) :=
  "IN;".toUTF8.toList :: Operation.texts (.ofConfig c) j.operations

theorem Job.flatten_texts (j : Job) (c : Config) : (j.texts c).flatten =
    "IN;".toUTF8.toList ++ j.requests.flatMap (Request.composed (.ofConfig c)) := by
  rw [texts, List.flatten_cons, Operation.texts, ← List.flatMap_def,
    Operation.flatMap_written_filter, flatMap_requests]

theorem Session.perform_send {s : Session} {r : Request} {st : Statement}
    (h : r.compose s.transform = .ok st) :
    (s.perform r).2.delivery = (s.sink.send st.bytes).2 ∧
      (s.perform r).1.sink = (s.sink.send st.bytes).1 := by
  rw [perform_of_ok h]
  exact ⟨rfl, rfl⟩

/-- **A job runs to its end** exactly if the sink takes all its texts. -/
theorem Job.run_eq_ok {s : Session} {j : Job} : (j.run s).2.delivery.result = .ok () ↔
    s.sink.TakesAll (Operation.texts s.transform j.operations) := by
  simp only [Job.run, Job.requests]
  generalize j.operations = ops
  induction ops generalizing s with
  | nil => exact ⟨fun _ => .nil _, fun _ => rfl⟩
  | cons op ops ih =>
    have ht := (s.perform_step op.request).transform_eq
    rcases h : op.statement s.transform with cause | st
    · rw [List.map_cons, (s.performAll_refused h _).2, Operation.texts_cons_of_error h]
      exact ih
    · obtain ⟨hdelivery, hsink⟩ :=
        Session.perform_send ((Operation.request_compose _ op).trans h)
      rw [Operation.texts_cons_of_ok h, Sink.takesAll_cons, ← hdelivery, ← hsink, List.map_cons]
      rcases hr : (s.perform op.request).2.delivery.result with f | _
      · rw [Session.performAll_cons_of_error _ hr, hr]
        simp
      · have hnext := ih (s := (s.perform op.request).1)
        rw [ht] at hnext
        rw [Session.performAll_cons_of_ok _ hr]
        exact hnext.trans (and_iff_right rfl).symm

namespace RenderOptions

variable {job : Job} {c : Config} {sink : Sink}

/-! ## How a session ends -/

/-- **A session ends well** exactly if it opens and runs its job. -/
theorem session_eq_success : (session job c sink).ending = .success ↔
    ∃ s a, Session.start c sink = .ok (s, a) ∧ (job.run s).2.delivery.result = .ok () := by
  unfold session
  rcases Session.start c sink with (cause | ⟨a, f⟩) | ⟨s, a⟩
  · simp
  · simp
  · rcases hr : (job.run s).2.delivery.result with f | _ <;> simp [hr]

/-- **A session ends well** exactly if the scale is valid and the sink takes all its texts. -/
theorem session_eq_success_iff : (session job c sink).ending = .success ↔
    Positive c.scale ∧ sink.TakesAll (job.texts c) := by
  rw [session_eq_success, Job.texts, Sink.takesAll_cons]
  have hfirst : Session.perform ⟨c, sink⟩ (.draw .reset) = Session.deliver ⟨c, sink⟩ ⟨"IN;"⟩ :=
    Session.perform_of_ok rfl
  constructor
  · rintro ⟨s, a, hstart, hrun⟩
    have ht : s.transform = .ofConfig c := (Session.start_step hstart).transform_eq
    obtain ⟨hvalid, hperform, hok⟩ := Session.start_eq_ok.mp hstart
    obtain ⟨rfl, rfl⟩ := Prod.mk.inj (hfirst.symm.trans hperform)
    rw [Job.run_eq_ok, ht] at hrun
    exact ⟨Config.validate_eq_ok.mp hvalid, hok, hrun⟩
  · rintro ⟨hscale, hok, htexts⟩
    refine ⟨_, _, Session.start_eq_ok.mpr ⟨Config.validate_eq_ok.mpr hscale, hfirst, hok⟩, ?_⟩
    exact Job.run_eq_ok.mpr htexts

theorem session_of_not_positive (h : ¬ Positive c.scale) :
    session job c sink = ⟨[], [], .failed (.notStarted (.invalidScale c.scale)), []⟩ := by
  simp only [session, Session.start_eq_refused.mpr (Config.validate_of_not_positive h)]

theorem not_positive_of_failed {f : RunFailure} (h : (session job c sink).ending = .failed f)
    (hf : f.ofInputs = true) : ¬ Positive c.scale ∧ f = .notStarted (.invalidScale c.scale) := by
  by_cases hscale : Positive c.scale
  · exfalso
    unfold session at h
    rcases hstart : Session.start c sink with (cause | ⟨a, g⟩) | ⟨s, a⟩
    · rw [Session.start_eq_refused, Config.validate_eq_ok.mpr hscale] at hstart
      cases hstart
    · rw [hstart] at h
      cases h
      cases hf
    · rw [hstart] at h
      dsimp only at h
      split at h <;> cases h
      cases hf
  · rw [session_of_not_positive hscale] at h
    cases h
    exact ⟨hscale, rfl⟩

theorem session_ne_overflow : (session job c sink).ending ≠ .overflow := by
  unfold session
  split
  · nofun
  · nofun
  · dsimp only
    split <;> nofun

theorem ending_session_filter {k : Job}
    (hk : k.operations = job.operations.filter (Operation.accepted (.ofConfig c))) :
    (session k c sink).ending = (session job c sink).ending := by
  unfold session
  rcases hstart : Session.start c sink with (cause | ⟨a, f⟩) | ⟨s, a⟩
  · rfl
  · rfl
  · have ht : s.transform = .ofConfig c := (Session.start_step hstart).transform_eq
    dsimp only
    rw [(Job.run_filter s job k (ht ▸ hk)).2]

end RenderOptions

/-- **A session of the library for a job**: how it ends on a sink, and what the sink has taken by
then. -/
inductive Job.Sends (job : Job) (c : Config) (sink : Sink) : Ending → List UInt8 → Prop
  /-- No session opens, for the settings are refused. -/
  | refused {cause : Refusal} (start : Session.start c sink = .error (.refused cause)) :
      Sends job c sink (.failed (.notStarted cause)) []
  /-- No session opens, for the sink fails on the first statement. -/
  | unopened {a : Outcome} {f : SinkFault}
      (start : Session.start c sink = .error (.undelivered a f)) :
      Sends job c sink (.failed (.firstUndelivered f)) a.delivery.sent
  /-- A session opens, and the sink fails on a statement of the job. -/
  | stopped {s : Session} {a : Outcome} {f : SinkFault}
      (start : Session.start c sink = .ok (s, a))
      (run : (job.run s).2.delivery.result = .error f) :
      Sends job c sink (.failed (.undelivered f)) (job.run s).1.sink.taken
  /-- A session opens, and the job runs to its end. -/
  | whole {s : Session} {a : Outcome} (start : Session.start c sink = .ok (s, a))
      (run : (job.run s).2.delivery.result = .ok ()) :
      Sends job c sink .success (job.run s).1.sink.taken

namespace RenderOptions

variable {job : Job} {c : Config} {sink : Sink}

/-- **What a run plots** is what such a session sends. -/
theorem sends_session :
    job.Sends c sink (session job c sink).ending (session job c sink).taken := by
  unfold session
  rcases hstart : Session.start c sink with (cause | ⟨a, f⟩) | ⟨s, a⟩
  · exact .refused hstart
  · exact .unopened hstart
  · rcases hr : (job.run s).2.delivery.result with f | _
    · simpa only [hr] using Job.Sends.stopped hstart hr
    · simpa only [hr] using Job.Sends.whole hstart hr

/-- **With a valid scale** a session ends well on a sink that takes everything. -/
theorem start_of_positive (h : Positive c.scale) (job : Job) :
    ∃ s a, Session.start c .accepting = .ok (s, a) ∧ (job.run s).2.delivery.result = .ok () ∧
      (job.run s).1.sink.taken = (job.texts c).flatten := by
  obtain ⟨s, a, hstart, haccepting, ht, htaken, -⟩ :=
    Session.start_accepting c (Config.hasValidScale_iff.mpr h)
  refine ⟨s, a, hstart, Session.performAll_accepting haccepting _, ?_⟩
  rw [Job.run, Session.taken_performAll haccepting, htaken, ht, job.flatten_texts]

end RenderOptions

/-- **A sink has the head of what the session sends**, and all of it if the session ends well. -/
theorem Job.Sends.isPrefix {job : Job} {c : Config} {script : Script} {ending : Ending}
    {bytes : List UInt8} (h : job.Sends c script.sink ending bytes) :
    bytes <+: (job.texts c).flatten ∧ (ending = .success → bytes = (job.texts c).flatten) := by
  rw [job.flatten_texts]
  have opened {s : Session} {a : Outcome} (hstart : Session.start c script.sink = .ok (s, a)) :
      s.transform = .ofConfig c ∧ s.sink.taken = "IN;".toUTF8.toList := by
    have step := Session.start_step hstart
    refine ⟨step.transform_eq, ?_⟩
    rw [step.taken_eq, step.sent_eq (Session.start_eq_ok.mp hstart).2.2, Request.composed_reset]
    rfl
  cases h with
  | refused => exact ⟨List.nil_prefix, nofun⟩
  | unopened start =>
    obtain ⟨-, rfl, -⟩ := Session.start_eq_undelivered.mp start
    have step := Session.perform_step ⟨c, script.sink⟩ (.draw .reset)
    exact ⟨step.sent_prefix.trans (List.prefix_append _ _), nofun⟩
  | @stopped s a f start run =>
    obtain ⟨ht, htaken⟩ := opened start
    have head := (s.runs job).head
    rw [ht, htaken] at head
    exact ⟨head, nofun⟩
  | @whole s a start run =>
    obtain ⟨ht, htaken⟩ := opened start
    have whole := (s.runs job).whole run
    rw [ht, htaken] at whole
    exact ⟨whole ▸ List.prefix_rfl, fun _ => whole⟩

/-! ## An output that fails -/

/-- The bytes that were offered, call by call. -/
def Delivery.offered (d : Delivery) : List (List UInt8) := d.writes.map WriteCall.offered

theorem Outcome.offered_andThen (a b : Outcome) :
    (a.andThen b).delivery.offered = a.delivery.offered ++ b.delivery.offered :=
  List.map_append

/-- The sink takes so many write calls and fails at the next one. -/
def Sink.FailsAfter (n : Nat) (f : SinkFault) (s : Sink) : Prop :=
  s.writes = List.replicate n .takeAll ++ [.fail f] ∧ s.flushes = []

namespace Sink

variable {s : Sink} {n : Nat} {f : SinkFault} {bytes : List UInt8}

theorem offered_accepting (hw : s.writes = []) (hbytes : bytes ≠ []) :
    (s.send bytes).2.offered = [bytes] := by
  obtain ⟨writes, flushes, taken⟩ := s
  obtain ⟨b, bs, rfl⟩ := List.exists_cons_of_ne_nil hbytes
  subst hw
  rfl

theorem offered_nil (hw : s.writes = []) : (s.send []).2.offered = [] := by
  obtain ⟨writes, flushes, taken⟩ := s
  subst hw
  rfl

theorem FailsAfter.send_nil (h : s.FailsAfter n f) :
    (s.send []).2.result = .ok () ∧ (s.send []).2.offered = [] ∧ (s.send []).1.FailsAfter n f := by
  obtain ⟨writes, flushes, taken⟩ := s
  obtain ⟨rfl, rfl⟩ := h
  cases n <;> exact ⟨rfl, rfl, rfl, rfl⟩

theorem FailsAfter.send_zero (h : s.FailsAfter 0 f) (hf : f ≠ .interrupted) (hbytes : bytes ≠ []) :
    (s.send bytes).2.result = .error f ∧ (s.send bytes).2.offered = [bytes] := by
  obtain ⟨writes, flushes, taken⟩ := s
  obtain ⟨b, bs, rfl⟩ := List.exists_cons_of_ne_nil hbytes
  obtain ⟨rfl, rfl⟩ := h
  simp [send, writeAll, hf, Delivery.offered]

theorem FailsAfter.send_succ (h : s.FailsAfter (n + 1) f) (hbytes : bytes ≠ []) :
    (s.send bytes).2.result = .ok () ∧ (s.send bytes).2.offered = [bytes] ∧
      (s.send bytes).1.FailsAfter n f := by
  obtain ⟨writes, flushes, taken⟩ := s
  obtain ⟨b, bs, rfl⟩ := List.exists_cons_of_ne_nil hbytes
  obtain ⟨rfl, rfl⟩ := h
  exact ⟨rfl, rfl, rfl, rfl⟩

end Sink

namespace Session

variable {s s' : Session} {n : Nat} {f : SinkFault}

/-- **Calls on a sink that fails** offer it what they offer to one that takes everything, up to the
call that fails. -/
theorem performAll_offered (hf : f ≠ .interrupted) (hs : s.Accepting) (hs' : s'.sink.FailsAfter n f)
    (hconfig : s'.config = s.config) (rs : List Request) :
    (s'.performAll rs).2.delivery.offered =
      (s.performAll rs).2.delivery.offered.take (n + 1) := by
  induction rs generalizing s s' n with
  | nil => rfl
  | cons r rs ih =>
    have ht : s'.transform = s.transform := by rw [transform, transform, hconfig]
    obtain ⟨hr, hnext⟩ := perform_accepting hs r
    have hkeeps : (s'.perform r).1.config = (s.perform r).1.config :=
      (s'.perform_step r).config_eq.trans (hconfig.trans (s.perform_step r).config_eq.symm)
    have goesOn {m : Nat} (hr' : (s'.perform r).2.delivery.result = .ok ())
        (hnext' : (s'.perform r).1.sink.FailsAfter m f) :
        (s'.performAll (r :: rs)).2.delivery.offered = (s'.perform r).2.delivery.offered ++
          ((s.perform r).1.performAll rs).2.delivery.offered.take (m + 1) := by
      rw [performAll_cons_of_ok rs hr', Outcome.offered_andThen, ih hnext hnext' hkeeps]
    rw [performAll_cons_of_ok rs hr, Outcome.offered_andThen]
    -- Only a statement that is not empty is offered, and so brings the call that fails nearer.
    rcases h : r.compose s.transform with cause | st
    · have hp' := perform_of_error (s := s') (ht ▸ h)
      rw [goesOn (by rw [hp']; rfl) (by rw [hp']; exact hs'), perform_of_error h, hp']
      rfl
    obtain ⟨hdelivery, -⟩ := perform_send h
    obtain ⟨hdelivery', hsink'⟩ := perform_send (s := s') (ht ▸ h)
    by_cases hbytes : st.bytes = []
    · obtain ⟨hok, hnone, hstill⟩ := hs'.send_nil
      rw [hbytes] at hdelivery hdelivery' hsink'
      rw [goesOn (hdelivery' ▸ hok) (hsink' ▸ hstill), hdelivery, hdelivery', hnone,
        Sink.offered_nil hs.1, List.nil_append, List.nil_append]
    have hone := Sink.offered_accepting hs.1 hbytes
    cases n with
    | zero =>
      obtain ⟨herror, hone'⟩ := hs'.send_zero hf hbytes
      rw [performAll_cons_of_error rs (hdelivery' ▸ herror), hdelivery, hdelivery', hone, hone']
      rfl
    | succ n =>
      obtain ⟨hok, hone', hstill⟩ := hs'.send_succ hbytes
      rw [goesOn (hdelivery' ▸ hok) (hsink' ▸ hstill), hdelivery, hdelivery', hone, hone']
      rfl

/-- The opening of a session and the calls behind it are one run. -/
theorem offered_session {c : Config} {sink : Sink} {job : Job} (h : Positive c.scale) :
    (RenderOptions.session job c sink).writes.map WriteCall.offered =
      (performAll ⟨c, sink⟩ (.draw .reset :: job.requests)).2.delivery.offered := by
  unfold RenderOptions.session
  rw [start_eq, Config.validate_eq_ok.mpr h]
  rcases hr : (perform ⟨c, sink⟩ (.draw .reset)).2.delivery.result with f | _
  · rw [performAll_cons_of_error _ hr]
    rfl
  · rw [performAll_cons_of_ok _ hr]
    rfl

end Session

namespace RenderOptions

/-- **What a run has handed over to an output that fails** is what it offers to one that takes
everything, up to the call that fails. -/
theorem plot_failingAfter (o : RenderOptions) (job : Job) (c : Config) (n : Nat) {f : SinkFault}
    (hf : f ≠ .interrupted) :
    (o.plot job c (Script.failingAfter n f).sink).writes.map WriteCall.offered =
      ((o.plot job c Script.accepting.sink).writes.map WriteCall.offered).take (n + 1) := by
  have hsession : (session job c (Script.failingAfter n f).sink).writes.map WriteCall.offered =
      ((session job c Script.accepting.sink).writes.map WriteCall.offered).take (n + 1) := by
    by_cases hscale : Positive c.scale
    · rw [Session.offered_session hscale, Session.offered_session hscale]
      refine Session.performAll_offered hf ?_ ?_ ?_ _
      · exact ⟨rfl, rfl⟩
      · exact ⟨rfl, rfl⟩
      · rfl
    · rw [session_of_not_positive hscale, session_of_not_positive hscale]
      rfl
  unfold plot
  dsimp only
  split
  · split
    · rfl
    · exact hsession
  · exact hsession

end RenderOptions

end HpGl
