import HpGl.Job.Operation

/-!
# Delivery under any sink

A sink takes a statement in pieces of any size, may be interrupted, and may fail at any call. The
bytes that it has taken are always the head of what was composed, up to the call that failed.

* `Sink.Delivers`: one statement, call by call; `send_delivers`.
* `Session.Step`, `Session.Trace`: one call of a session, and calls one after the other, whatever
  they return; `perform_step`, `performEach_trace`.
* `Outcome.Joins`: the outcome of a run, put together from those of its calls; `performAll_joins`.
* `performAll_sent_prefix`: a run sends the head of all its statements.
* **`job_delivery`**: all of this for a session opened on any sink, and a job run in it.
-/

namespace HpGl

/-! ## One statement -/

/-- What a write call returns under an act of the script. -/
def WriteAct.answer (offered : Nat) : WriteAct → Except SinkFault Nat
  | takeAll => .ok offered
  | takeAtMost n => .ok (min n offered)
  | fail f => .error f

/-- What a flush call returns under an act of the script. -/
def FlushAct.answer : FlushAct → Except SinkFault Unit
  | succeed => .ok ()
  | fail f => .error f

namespace WriteCall

/-- How many bytes a call took. -/
def took (c : WriteCall) : Nat :=
  match c.outcome with
  | .ok n => n
  | .error _ => 0

/-- The fault after which nothing more is offered. An interrupted call has none: it is repeated. -/
def fault? (c : WriteCall) : Option SinkFault :=
  match c.outcome with
  | .ok n => if n = 0 then some .nothingWritten else none
  | .error f => if f = .interrupted then none else some f

/-- How many bytes calls took together. -/
def tookAll (cs : List WriteCall) : Nat := cs.foldr (fun c n => c.took + n) 0

@[simp] theorem tookAll_nil : tookAll [] = 0 := rfl

@[simp] theorem tookAll_cons (c : WriteCall) (cs : List WriteCall) :
    tookAll (c :: cs) = c.took + tookAll cs := rfl

end WriteCall

open WriteCall (tookAll)

/-- **The write calls for some bytes**: each call is offered exactly what the calls before it have
not taken, and answers as the script says; calls go on until one has a fault. -/
structure Offers (acts : List WriteAct) (bytes : List UInt8) (calls : List WriteCall) : Prop where
  offered : ∀ i (h : i < calls.length),
    calls[i].offered = bytes.drop (tookAll (calls.take i)) ∧ calls[i].offered ≠ []
  answered : ∀ i (h : i < calls.length),
    calls[i].outcome = (acts.getD i .takeAll).answer calls[i].offered.length
  goesOn : ∀ i (h : i + 1 < calls.length), calls[i].fault? = none

theorem Offers.nil (acts : List WriteAct) (bytes : List UInt8) : Offers acts bytes [] where
  offered _ h := absurd h (Nat.not_lt_zero _)
  answered _ h := absurd h (Nat.not_lt_zero _)
  goesOn _ h := absurd h (Nat.not_lt_zero _)

theorem Offers.cons {acts : List WriteAct} {bytes : List UInt8} {c : WriteCall}
    {cs : List WriteCall} (ho : c.offered = bytes) (hb : bytes ≠ [])
    (ha : c.outcome = (acts.getD 0 .takeAll).answer bytes.length)
    (hf : cs ≠ [] → c.fault? = none) (h : Offers acts.tail (bytes.drop c.took) cs) :
    Offers acts bytes (c :: cs) where
  offered i hi := by
    cases i with
    | zero => exact ⟨by simpa using ho, by simpa [ho] using hb⟩
    | succ i =>
      have := h.offered i (Nat.lt_of_succ_lt_succ hi)
      simpa [List.drop_drop] using this
  answered i hi := by
    cases i with
    | zero => simpa [ho] using ha
    | succ i =>
      have := h.answered i (Nat.lt_of_succ_lt_succ hi)
      cases acts <;> simpa using this
  goesOn i hi := by
    cases i with
    | zero => exact hf (List.ne_nil_of_length_pos (Nat.lt_of_succ_lt_succ hi))
    | succ i => exact h.goesOn i (Nat.lt_of_succ_lt_succ hi)

/-- **A delivery of bytes** that takes a sink from `s` to `s'`. -/
structure Sink.Delivers (s s' : Sink) (bytes : List UInt8) (d : Delivery) : Prop where
  /-- Every call is offered exactly what is not yet taken. -/
  offers : Offers s.writes bytes d.writes
  /-- What was sent is what the calls took, in their order. -/
  pieces : d.sent = d.writes.flatMap fun c => c.offered.take c.took
  /-- What was sent is the head of the bytes. -/
  sent : d.sent = bytes.take (tookAll d.writes)
  /-- A delivery has one flush if all was taken, else none. -/
  flushed : d.flushes = if d.sent = bytes then 1 else 0
  /-- A delivery succeeds if all was taken and the flush behind it succeeded. -/
  succeeded : d.result = .ok () ↔ d.sent = bytes ∧ (s.flushes.headD .succeed).answer = .ok ()
  /-- A delivery fails with the fault of the last write call, or with that of the flush. -/
  failed : ∀ f, d.result = .error f ↔
    (d.sent ≠ bytes ∧ ∃ c, d.writes.getLast? = some c ∧ c.fault? = some f) ∨
      (d.sent = bytes ∧ (s.flushes.headD .succeed).answer = .error f)
  /-- Each call uses up one act of its script, and the bytes sent are added to those taken. -/
  after : s' = ⟨s.writes.drop d.writes.length, s.flushes.drop d.flushes, s.taken ++ d.sent⟩

namespace Sink

/-- Offering bytes until all are taken: what is left of the script, what was sent, the calls, and
how it ended. -/
structure WritesAll (acts : List WriteAct) (bytes : List UInt8) (left : List WriteAct)
    (sent : List UInt8) (calls : List WriteCall) (result : Except SinkFault Unit) : Prop where
  offers : Offers acts bytes calls
  left_eq : left = acts.drop calls.length
  pieces : sent = calls.flatMap fun c => c.offered.take c.took
  sent_eq : sent = bytes.take (tookAll calls)
  complete : result = .ok () ↔ sent = bytes
  stopped : ∀ f, result = .error f ↔ ∃ c, calls.getLast? = some c ∧ c.fault? = some f

namespace WritesAll

variable {acts left : List WriteAct} {bytes sent : List UInt8} {calls : List WriteCall}
  {result : Except SinkFault Unit} {c : WriteCall}

theorem nil (acts : List WriteAct) : WritesAll acts [] acts [] [] (.ok ()) where
  offers := .nil _ _
  left_eq := rfl
  pieces := rfl
  sent_eq := rfl
  complete := by simp
  stopped := by simp

theorem whole (ho : c.offered = bytes) (hb : bytes ≠ []) (hc : c.outcome = .ok bytes.length)
    (ha : (acts.getD 0 .takeAll).answer bytes.length = .ok bytes.length) :
    WritesAll acts bytes acts.tail bytes [c] (.ok ()) := by
  have ht : c.took = bytes.length := by rw [WriteCall.took, hc]
  have hf : c.fault? = none := by simp [WriteCall.fault?, hc, hb]
  exact
    { offers := .cons ho hb (hc.trans ha.symm) (fun h => absurd rfl h) (.nil _ _)
      left_eq := by simp
      pieces := by simp [ho, ht]
      sent_eq := by simp [ht]
      complete := by simp
      stopped := by simp [hf] }

theorem fault {f : SinkFault} (ho : c.offered = bytes) (hb : bytes ≠ [])
    (ha : c.outcome = (acts.getD 0 .takeAll).answer bytes.length) (ht : c.took = 0)
    (hf : c.fault? = some f) : WritesAll acts bytes acts.tail [] [c] (.error f) where
  offers := .cons ho hb ha (fun h => absurd rfl h) (.nil _ _)
  left_eq := by simp
  pieces := by simp [ht]
  sent_eq := by simp [ht]
  complete := by simp [hb.symm]
  stopped := by simp [hf]

theorem cons {a : WriteAct} (ho : c.offered = bytes) (hb : bytes ≠ [])
    (ha : c.outcome = a.answer bytes.length) (hf : c.fault? = none)
    (h : WritesAll acts (bytes.drop c.took) left sent calls result) :
    WritesAll (a :: acts) bytes left (bytes.take c.took ++ sent) (c :: calls) result where
  offers := .cons ho hb ha (fun _ => hf) h.offers
  left_eq := h.left_eq
  pieces := by rw [List.flatMap_cons, ho, ← h.pieces]
  sent_eq := by rw [h.sent_eq, WriteCall.tookAll_cons, List.take_add]
  complete := by
    rw [h.complete]
    constructor
    · intro hs
      rw [hs, List.take_append_drop]
    · intro hs
      rw [← List.append_right_inj (bytes.take c.took), hs, List.take_append_drop]
  stopped f := by
    rw [h.stopped]
    cases calls with
    | nil => simp [hf]
    | cons d ds => simp [List.getLast?_cons_cons]

end WritesAll

/-- **Bytes are offered until all are taken or a call has a fault.** -/
theorem writeAll_writesAll {acts left : List WriteAct} {bytes sent : List UInt8}
    {calls : List WriteCall} {result : Except SinkFault Unit}
    (h : writeAll acts bytes = (left, sent, calls, result)) :
    WritesAll acts bytes left sent calls result := by
  -- every act of the script is one call, and what it leaves over goes to the acts behind it
  induction acts generalizing bytes left sent calls result with
  | nil =>
    cases bytes with
    | nil =>
      cases h
      exact .nil []
    | cons b bs =>
      cases h
      exact .whole rfl (List.cons_ne_nil _ _) rfl rfl
  | cons a acts ih =>
    cases bytes with
    | nil =>
      cases a <;> (cases h; exact .nil _)
    | cons b bs =>
      cases a with
      | takeAll =>
        cases h
        exact .whole rfl (List.cons_ne_nil _ _) rfl rfl
      | takeAtMost n =>
        simp only [writeAll] at h
        split at h
        · rename_i hk
          cases h
          refine .fault rfl (List.cons_ne_nil _ _) ?_ rfl rfl
          exact congrArg Except.ok hk.symm
        · rename_i hk
          rcases hr : writeAll acts ((b :: bs).drop (min n (b :: bs).length)) with ⟨l, s, cs, r⟩
          rw [hr] at h
          cases h
          exact .cons (c := ⟨b :: bs, .ok (min n (b :: bs).length)⟩) rfl (List.cons_ne_nil _ _) rfl
            (if_neg hk) (ih hr)
      | fail f =>
        simp only [writeAll] at h
        split at h
        · rename_i hf
          rcases hr : writeAll acts (b :: bs) with ⟨l, s, cs, r⟩
          rw [hr] at h
          cases h
          subst hf
          exact .cons (c := ⟨b :: bs, .error .interrupted⟩) rfl (List.cons_ne_nil _ _) rfl rfl
            (ih hr)
        · rename_i hf
          cases h
          exact .fault rfl (List.cons_ne_nil _ _) rfl rfl (if_neg hf)

theorem flush_eq (acts : List FlushAct) :
    flush acts = (acts.drop 1, (acts.headD .succeed).answer) := by
  cases acts with
  | nil => rfl
  | cons a acts => cases a <;> rfl

/-- **A statement is offered whole, and flushed once if all of it was taken.** -/
theorem send_delivers (s : Sink) (bytes : List UInt8) :
    s.Delivers (s.send bytes).1 bytes (s.send bytes).2 := by
  unfold send
  rcases hw : writeAll s.writes bytes with ⟨left, sent, calls, f | _⟩
  · have h := writeAll_writesAll hw
    have hne : sent ≠ bytes := fun hs => nomatch h.complete.mpr hs
    exact
      { offers := h.offers
        pieces := h.pieces
        sent := h.sent_eq
        flushed := (if_neg hne).symm
        succeeded := by simp [hne]
        failed := fun g => by simpa [hne] using h.stopped g
        after := by simp [h.left_eq] }
  · have h := writeAll_writesAll hw
    have hs : sent = bytes := h.complete.mp rfl
    exact
      { offers := h.offers
        pieces := h.pieces
        sent := h.sent_eq
        flushed := (if_pos hs).symm
        succeeded := by simp [flush_eq, hs]
        failed := fun g => by simp [flush_eq, hs]
        after := by simp [flush_eq, h.left_eq] }

end Sink

/-! ## One call of a session -/

/-- The bytes that a call composes; none if it is refused. -/
def Request.composed (t : Transform) (r : Request) : List UInt8 :=
  match r.compose t with
  | .ok st => st.bytes
  | .error _ => []

/-- **One call** that takes a session from `s` to `s'`. -/
inductive Session.Step (s : Session) (r : Request) : Session → Outcome → Prop
  /-- A refused call makes no write call and no flush call, and returns in order. -/
  | refused {cause : Refusal} {o : Outcome} (h : r.compose s.transform = .error cause)
      (writes : o.delivery.writes = []) (flushes : o.delivery.flushes = 0)
      (sent : o.delivery.sent = []) (result : o.delivery.result = .ok ()) : Step s r s o
  /-- Any other call delivers the statement that it composes. -/
  | composed {st : Statement} {s' : Session} {o : Outcome} (h : r.compose s.transform = .ok st)
      (config : s'.config = s.config) (delivers : s.sink.Delivers s'.sink st.bytes o.delivery) :
      Step s r s' o

/-- **Calls one after the other**, whatever they return. -/
inductive Session.Trace : Session → List Request → List Outcome → Session → Prop
  | nil (s : Session) : Trace s [] [] s
  | cons {s s' s'' : Session} {r : Request} {rs : List Request} {o : Outcome} {os : List Outcome}
      (step : s.Step r s' o) (rest : Trace s' rs os s'') : Trace s (r :: rs) (o :: os) s''

namespace Session

/-- Calls one after the other, whatever they return: the session after them, and the outcome of
each. -/
def performEach (s : Session) : List Request → Session × List Outcome
  | [] => (s, [])
  | r :: rs =>
    let rest := performEach (s.perform r).1 rs
    (rest.1, (s.perform r).2 :: rest.2)

theorem perform_of_ok {s : Session} {r : Request} {st : Statement}
    (h : r.compose s.transform = .ok st) : s.perform r = s.deliver st := by
  rw [perform, h]

theorem perform_of_error {s : Session} {r : Request} {cause : Refusal}
    (h : r.compose s.transform = .error cause) :
    s.perform r = (s, .silent [.rejected r.name cause]) := by
  rw [perform, h]

/-- **Every call of a session is a step.** -/
theorem perform_step (s : Session) (r : Request) : s.Step r (s.perform r).1 (s.perform r).2 := by
  rcases h : r.compose s.transform with cause | st
  · rw [perform_of_error h]
    exact .refused h rfl rfl rfl rfl
  · rw [perform_of_ok h]
    exact .composed h rfl (s.sink.send_delivers st.bytes)

theorem performEach_trace (s : Session) (rs : List Request) :
    s.Trace rs (s.performEach rs).2 (s.performEach rs).1 := by
  induction rs generalizing s with
  | nil => exact .nil s
  | cons r rs ih => exact .cons (s.perform_step r) (ih _)

theorem start_eq (c : Config) (sink : Sink) :
    start c sink =
      match c.validate, (perform ⟨c, sink⟩ (.draw .reset)).2.delivery.result with
      | .error cause, _ => .error (.refused cause)
      | .ok (), .error f => .error (.undelivered (perform ⟨c, sink⟩ (.draw .reset)).2 f)
      | .ok (), .ok () => .ok (perform ⟨c, sink⟩ (.draw .reset)) := by
  unfold start
  rcases c.validate with cause | _
  · rfl
  · rcases hr : (perform ⟨c, sink⟩ (.draw .reset)).2.delivery.result with f | _ <;> simp only [hr]

theorem start_eq_ok {c : Config} {sink : Sink} {s : Session} {o : Outcome} :
    start c sink = .ok (s, o) ↔ c.validate = .ok () ∧
      perform ⟨c, sink⟩ (.draw .reset) = (s, o) ∧ o.delivery.result = .ok () := by
  rw [start_eq]
  rcases hp : perform ⟨c, sink⟩ (.draw .reset) with ⟨s', o'⟩
  rcases c.validate with cause | _
  · simp
  · rcases hr : o'.delivery.result with f | _
    · simp only [reduceCtorEq, true_and, false_iff, not_and, Prod.mk.injEq]
      rintro ⟨-, rfl⟩
      simp [hr]
    · simp only [Except.ok.injEq, true_and, Prod.mk.injEq, iff_self_and]
      rintro ⟨-, rfl⟩
      exact hr

theorem start_step {c : Config} {sink : Sink} {s : Session} {o : Outcome}
    (h : start c sink = .ok (s, o)) : Step ⟨c, sink⟩ (.draw .reset) s o := by
  have step := perform_step ⟨c, sink⟩ (.draw .reset)
  rwa [(start_eq_ok.mp h).2.1] at step

theorem start_eq_refused {c : Config} {sink : Sink} {cause : Refusal} :
    start c sink = .error (.refused cause) ↔ c.validate = .error cause := by
  rw [start_eq]
  rcases c.validate with cause | _
  · simp
  · rcases (perform ⟨c, sink⟩ (.draw .reset)).2.delivery.result with f | _ <;> simp

theorem start_eq_undelivered {c : Config} {sink : Sink} {o : Outcome} {f : SinkFault} :
    start c sink = .error (.undelivered o f) ↔ c.validate = .ok () ∧
      (perform ⟨c, sink⟩ (.draw .reset)).2 = o ∧ o.delivery.result = .error f := by
  rw [start_eq]
  rcases perform ⟨c, sink⟩ (.draw .reset) with ⟨s', o'⟩
  rcases c.validate with cause | _
  · simp
  · rcases hr : o'.delivery.result with g | _
    · simp only [Except.error.injEq, StartFailure.undelivered.injEq, true_and]
      constructor
      · rintro ⟨rfl, rfl⟩
        exact ⟨rfl, hr⟩
      · rintro ⟨rfl, h⟩
        exact ⟨rfl, by simpa [hr] using h⟩
    · simp only [reduceCtorEq, true_and, false_iff, not_and]
      rintro rfl
      simp [hr]

namespace Step

variable {s s' : Session} {r : Request} {o : Outcome}

theorem config_eq (h : s.Step r s' o) : s'.config = s.config := by
  cases h with
  | refused => rfl
  | composed _ config => exact config

theorem transform_eq (h : s.Step r s' o) : s'.transform = s.transform := by
  rw [transform, transform, h.config_eq]

theorem taken_eq (h : s.Step r s' o) : s'.sink.taken = s.sink.taken ++ o.delivery.sent := by
  cases h with
  | refused _ _ _ sent => rw [sent, List.append_nil]
  | composed _ _ delivers => rw [delivers.after]

/-- **A call sends the head of what it composes.** -/
theorem sent_prefix (h : s.Step r s' o) : o.delivery.sent <+: r.composed s.transform := by
  cases h with
  | refused _ _ _ sent =>
    rw [sent]
    exact List.nil_prefix
  | composed h _ delivers =>
    rw [Request.composed, h, delivers.sent]
    exact List.take_prefix _ _

theorem sent_eq (h : s.Step r s' o) (hr : o.delivery.result = .ok ()) :
    o.delivery.sent = r.composed s.transform := by
  cases h with
  | refused h _ _ sent => rw [sent, Request.composed, h]
  | composed h _ delivers =>
    rw [Request.composed, h]
    exact (delivers.succeeded.mp hr).1

end Step

end Session

/-! ## A run -/

namespace Outcome

/-- The call failed. -/
def failed (o : Outcome) : Bool :=
  match o.delivery.result with
  | .ok () => false
  | .error _ => true

/-- **The outcome of a run** put together from those of its calls: everything that happened, in
order, and the last result. -/
structure Joins (os : List Outcome) (o : Outcome) : Prop where
  events : o.events = os.flatMap Outcome.events
  sent : o.delivery.sent = os.flatMap fun a => a.delivery.sent
  writes : o.delivery.writes = os.flatMap fun a => a.delivery.writes
  flushes : o.delivery.flushes = os.foldr (fun a n => a.delivery.flushes + n) 0
  result : o.delivery.result = (os.getLast?.map fun a => a.delivery.result).getD (.ok ())

theorem Joins.nil : Joins [] (silent []) := ⟨rfl, rfl, rfl, rfl, rfl⟩

theorem Joins.single (o : Outcome) : Joins [o] o :=
  ⟨by simp, by simp, by simp, by simp, by simp⟩

theorem Joins.cons {a b : Outcome} {os : List Outcome} (ha : a.delivery.result = .ok ())
    (h : Joins os b) : Joins (a :: os) (a.andThen b) where
  events := by simp [h.events]
  sent := by simp [andThen, h.sent]
  writes := by simp [andThen, h.writes]
  flushes := by simp [andThen, h.flushes]
  result := by
    rw [andThen, h.result]
    cases os with
    | nil => simp [ha]
    | cons o os => rw [List.getLast?_cons_cons]

/-- The outcomes up to the first failure, which belongs to them. -/
def upToFailure (os : List Outcome) : List Outcome := os.take (os.findIdx failed + 1)

theorem upToFailure_cons_of_failed {o : Outcome} (os : List Outcome) (h : o.failed = true) :
    upToFailure (o :: os) = [o] := by
  simp [upToFailure, List.findIdx_cons, h]

theorem upToFailure_cons {o : Outcome} (os : List Outcome) (h : o.failed = false) :
    upToFailure (o :: os) = o :: upToFailure os := by
  simp [upToFailure, List.findIdx_cons, h]

end Outcome

namespace Session

open Outcome (upToFailure)

theorem performAll_cons_of_error {s : Session} {r : Request} {f : SinkFault} (rs : List Request)
    (h : (s.perform r).2.delivery.result = .error f) : s.performAll (r :: rs) = s.perform r := by
  simp only [performAll, h]

theorem performAll_cons_of_ok {s : Session} {r : Request} (rs : List Request)
    (h : (s.perform r).2.delivery.result = .ok ()) :
    s.performAll (r :: rs) = (((s.perform r).1.performAll rs).1,
      (s.perform r).2.andThen ((s.perform r).1.performAll rs).2) := by
  simp only [performAll, h]

theorem performEach_cons (s : Session) (r : Request) (rs : List Request) :
    s.performEach (r :: rs) = (((s.perform r).1.performEach rs).1,
      (s.perform r).2 :: ((s.perform r).1.performEach rs).2) := rfl

/-- **A run is its calls up to the first failure.** -/
theorem performAll_joins (s : Session) (rs : List Request) :
    Outcome.Joins (upToFailure (s.performEach rs).2) (s.performAll rs).2 ∧
      (s.performAll rs).1 =
        (s.performEach (rs.take (upToFailure (s.performEach rs).2).length)).1 := by
  induction rs generalizing s with
  | nil => exact ⟨.nil, rfl⟩
  | cons r rs ih =>
    rcases h : (s.perform r).2.delivery.result with f | _
    · have hf : (s.perform r).2.failed = true := by simp [Outcome.failed, h]
      rw [performAll_cons_of_error rs h, performEach_cons, Outcome.upToFailure_cons_of_failed _ hf]
      exact ⟨.single _, rfl⟩
    · have hf : (s.perform r).2.failed = false := by simp [Outcome.failed, h]
      rw [performAll_cons_of_ok rs h, performEach_cons, Outcome.upToFailure_cons _ hf]
      exact ⟨.cons h (ih _).1, (ih _).2⟩

theorem performAll_taken (s : Session) (rs : List Request) :
    (s.performAll rs).1.sink.taken = s.sink.taken ++ (s.performAll rs).2.delivery.sent := by
  induction rs generalizing s with
  | nil => exact (List.append_nil _).symm
  | cons r rs ih =>
    have hr := (s.perform_step r).taken_eq
    rcases h : (s.perform r).2.delivery.result with f | _
    · rw [performAll_cons_of_error rs h, hr]
    · rw [performAll_cons_of_ok rs h, ih, hr, List.append_assoc]
      rfl

/-- **A run sends the head of all that its calls compose**, all of it if it succeeds. -/
theorem performAll_sent_prefix (s : Session) (rs : List Request) :
    (s.performAll rs).2.delivery.sent <+: rs.flatMap (Request.composed s.transform) ∧
      ((s.performAll rs).2.delivery.result = .ok () →
        (s.performAll rs).2.delivery.sent = rs.flatMap (Request.composed s.transform)) := by
  induction rs generalizing s with
  | nil => exact ⟨List.prefix_rfl, fun _ => rfl⟩
  | cons r rs ih =>
    have step := s.perform_step r
    rcases h : (s.perform r).2.delivery.result with f | _
    · rw [performAll_cons_of_error rs h, h]
      exact ⟨step.sent_prefix.trans (List.prefix_append _ _), fun hr => nomatch hr⟩
    · rw [performAll_cons_of_ok rs h, List.flatMap_cons, ← step.sent_eq h, ← step.transform_eq]
      exact ⟨(List.prefix_append_right_inj _).mpr (ih _).1, fun hr => congrArg _ ((ih _).2 hr)⟩

end Session

theorem Request.composed_reset (t : Transform) :
    (Request.draw .reset).composed t = "IN;".toUTF8.toList := rfl

/-- **A job in an open session.** -/
structure Session.Runs (s : Session) (j : Job) : Prop where
  /-- One after the other, its operations are steps of the session. -/
  each : s.Trace j.requests (s.performEach j.requests).2 (s.performEach j.requests).1
  /-- A run consists of these steps up to the first that fails and returns what that returns. -/
  joins : Outcome.Joins (Outcome.upToFailure (s.performEach j.requests).2) (j.run s).2
  /-- A run leaves the session as these steps do. -/
  session : (j.run s).1 = (s.performEach
    (j.requests.take (Outcome.upToFailure (s.performEach j.requests).2).length)).1
  /-- After a run the sink holds the head of all the statements. -/
  head : (j.run s).1.sink.taken <+:
    s.sink.taken ++ j.requests.flatMap (Request.composed s.transform)
  /-- After a run that succeeds it holds all of them. -/
  whole : (j.run s).2.delivery.result = .ok () →
    (j.run s).1.sink.taken = s.sink.taken ++ j.requests.flatMap (Request.composed s.transform)

theorem Session.runs (s : Session) (j : Job) : s.Runs j where
  each := s.performEach_trace _
  joins := (s.performAll_joins _).1
  session := (s.performAll_joins _).2
  head := by
    rw [Job.run, s.performAll_taken]
    exact (List.prefix_append_right_inj _).mpr (s.performAll_sent_prefix _).1
  whole h := by
    rw [Job.run, s.performAll_taken]
    exact congrArg _ ((s.performAll_sent_prefix _).2 h)

/-- **Delivery under any sink.** With a valid scale a session opens unless the sink fails on its
first statement. That statement and every operation of a job are offered to the sink as
`Session.Step` says, whatever its script is, and a run of the job stops at the first failure. -/
theorem job_delivery (c : Config) (hc : c.hasValidScale = true) (sink : Sink) (j : Job) :
    match Session.start c sink with
    | .error (.refused _) => False
    | .error (.undelivered o f) =>
      o.delivery.result = .error f ∧ ∃ s, Session.Step ⟨c, sink⟩ (.draw .reset) s o ∧
        s.sink.taken <+: sink.taken ++ "IN;".toUTF8.toList
    | .ok (s, o) =>
      o.delivery.result = .ok () ∧ Session.Step ⟨c, sink⟩ (.draw .reset) s o ∧
        s.sink.taken = sink.taken ++ "IN;".toUTF8.toList ∧ s.config = c ∧ s.Runs j := by
  have step := Session.perform_step ⟨c, sink⟩ (.draw .reset)
  have hv : c.validate = .ok () := if_pos hc
  rcases h : Session.perform ⟨c, sink⟩ (.draw .reset) with ⟨s, o⟩
  rw [h] at step
  rcases hr : o.delivery.result with f | _
  · simp only [Session.start, hv, h, hr]
    refine ⟨trivial, s, step, ?_⟩
    rw [step.taken_eq]
    exact (List.prefix_append_right_inj _).mpr step.sent_prefix
  · simp only [Session.start, hv, h, hr]
    refine ⟨trivial, step, ?_, step.config_eq, s.runs j⟩
    rw [step.taken_eq, step.sent_eq hr, Request.composed_reset]

/-- Short writes, an interruption and a broken pipe: of a job whose first operation is refused, the
second arrives and the third stops after one byte. -/
theorem job_delivery_brokenPipe :
    Config.letter.hasValidScale = true ∧
      match Session.start .letter ⟨[.takeAtMost 2, .fail .interrupted, .takeAll, .takeAtMost 9,
        .takeAtMost 1, .fail .brokenPipe], [], []⟩ with
      | .error _ => False
      | .ok (s, _) =>
        s.Runs ⟨none, [.pen 9, .pen 1, .park]⟩ ∧
          ((Job.mk none [.pen 9, .pen 1, .park]).run s).2.failed = true ∧
          ((Job.mk none [.pen 9, .pen 1, .park]).run s).1.sink.taken =
            "IN;SP1;P".toUTF8.toList := by
  have hc : Config.letter.hasValidScale = true := by decide
  have h := job_delivery .letter hc ⟨[.takeAtMost 2, .fail .interrupted, .takeAll, .takeAtMost 9,
    .takeAtMost 1, .fail .brokenPipe], [], []⟩ ⟨none, [.pen 9, .pen 1, .park]⟩
  have hrun : (match Session.start .letter ⟨[.takeAtMost 2, .fail .interrupted, .takeAll,
      .takeAtMost 9, .takeAtMost 1, .fail .brokenPipe], [], []⟩ with
      | .error _ => false
      | .ok (s, _) =>
        ((Job.mk none [.pen 9, .pen 1, .park]).run s).2.failed &&
          decide (((Job.mk none [.pen 9, .pen 1, .park]).run s).1.sink.taken =
            "IN;SP1;P".toUTF8.toList)) = true := by decide +kernel
  refine ⟨hc, ?_⟩
  rcases hs : Session.start .letter ⟨[.takeAtMost 2, .fail .interrupted, .takeAll, .takeAtMost 9,
    .takeAtMost 1, .fail .brokenPipe], [], []⟩ with e | ⟨s, o⟩
  · rw [hs] at hrun
    exact Bool.noConfusion hrun
  · rw [hs] at h hrun
    simp only [Bool.and_eq_true, decide_eq_true_eq] at hrun
    exact ⟨h.2.2.2.2, hrun⟩

end HpGl
