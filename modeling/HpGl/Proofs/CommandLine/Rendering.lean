import HpGl.Proofs.CommandLine.Output
import HpGl.Proofs.CommandLine.Sessions
import Mathlib.Control.Monad.Basic

/-!
# Rendering

A run hands its job to a session of the library and leaves behind what that session sends, on an
output that takes the bytes as it likes. It reads its inputs before it opens its output, but the
session checks the scale of the settings after that.

* `render_cases`: a run without its inputs, without its output, and with both.
* `RenderOptions.Ready`: all that a run needs to end well; `ending_eq_success`.
* **`render_refines_session`**: when a run ends well, and what it leaves.
* **`refused_render_files`**: what a run leaves that its inputs are to blame for.
-/

namespace HpGl

theorem Ending.code_eq_zero {e : Ending} : e.code = 0 ↔ e = .success := by
  cases e <;> simp [code]

theorem Ending.code_eq_overflow {e : Ending} : e.code = 101 ↔ e = .overflow := by
  cases e <;> simp [code]

theorem Ending.code_of_ne_overflow {e : Ending} (h : e ≠ .overflow) : e.code = 0 ∨ e.code = 1 := by
  cases e with
  | success => exact .inl rfl
  | failed f => exact .inr rfl
  | overflow => exact absurd rfl h

namespace RenderOptions

variable {o : RenderOptions} {files opened : Files} {script : Place → Script} {place : Place}
  {job : Job} {c : Config}

/-! ## A run -/

/-- **A run with its inputs and its output** leaves behind what it plotted. -/
theorem render_of_inputs (hi : o.Inputs files.read job c) (ho : o.Opens files place opened) :
    o.render files script =
      let run := o.plot job c (script place).sink
      (place.keep opened run.taken, ⟨run.ending, run.taken, place.shown run.taken, run.log⟩) := by
  simp only [render, prepare_eq_ok.mpr hi, openOutput_eq_ok.mpr ho]

/-- **The course of a run**: it lacks its inputs, it lacks its output, or it has both. -/
theorem render_cases (o : RenderOptions) (files : Files) (script : Place → Script) :
    (∃ f, o.prepare files.read = .error f ∧ o.render files script = (files, .failed f)) ∨
    (∃ path fault, (∀ place opened, ¬ o.Opens files place opened) ∧
      o.render files script = (files, .failed (.unopened path fault))) ∨
    ∃ job c place opened, o.Inputs files.read job c ∧ o.Opens files place opened := by
  rcases hprepare : o.prepare files.read with f | ⟨job, c⟩
  · exact .inl ⟨f, rfl, by simp only [render, hprepare]⟩
  rcases hopen : o.openOutput files with f | ⟨place, opened⟩
  · have hclosed : ∀ place opened, ¬ o.Opens files place opened := by
      intro place opened h
      rw [openOutput_eq_ok.mpr h] at hopen
      cases hopen
    have hrender : o.render files script = (files, .failed f) := by
      simp only [render, hprepare, hopen]
    unfold openOutput at hopen
    split at hopen
    · cases hopen
    · split at hopen <;> cases hopen
      exact .inr (.inl ⟨_, _, hclosed, hrender⟩)
  · exact .inr (.inr ⟨job, c, place, opened, prepare_eq_ok.mp hprepare, openOutput_eq_ok.mp hopen⟩)

/-- **Around a session** there is the log, and the size of the area where the log shows it. -/
theorem plot_cases (o : RenderOptions) (job : Job) (c : Config) (sink : Sink) :
    (o.debug = true ∧ o.plot job c sink = ⟨[], [], .overflow, []⟩) ∨
      ∃ log, o.plot job c sink = { session job c sink with log } := by
  unfold plot
  dsimp only
  rcases hdebug : o.debug
  · have hquiet : ¬ o.level.shows .info = true := by
      simp [level, hdebug, LogLevel.shows, LogLevel.rank]
    rw [if_neg hquiet]
    exact .inr ⟨_, rfl⟩
  · have hloud : o.level.shows .info = true := by
      simp [level, hdebug, LogLevel.shows, LogLevel.rank]
    rw [if_pos hloud]
    rcases announcement? job c with _ | entry
    · exact .inl ⟨rfl, rfl⟩
    · exact .inr ⟨_, rfl⟩

/-- A run that has its inputs and its output goes as its session does, but for the size of the
area. -/
theorem render_eq_session (script : Place → Script) (hi : o.Inputs files.read job c)
    (ho : o.Opens files place opened) (h : (o.render files script).2.ending ≠ .overflow) :
    ∃ log, o.render files script =
      let run := session job c (script place).sink
      (place.keep opened run.taken, ⟨run.ending, run.taken, place.shown run.taken, log⟩) := by
  rw [render_of_inputs hi ho] at h ⊢
  rcases plot_cases o job c (script place).sink with ⟨-, hplot⟩ | ⟨log, hplot⟩
  · rw [hplot] at h
    exact absurd rfl h
  · rw [hplot]
    exact ⟨log, rfl⟩

theorem render_ne_overflow (script : Place → Script) (h : o.debug = false) :
    (o.render files script).2.ending ≠ .overflow := by
  rcases render_cases o files script with ⟨f, -, hrender⟩ | ⟨path, fault, -, hrender⟩ |
    ⟨job, c, place, opened, hi, ho⟩
  · rw [hrender]
    nofun
  · rw [hrender]
    nofun
  · rw [render_of_inputs hi ho]
    rcases plot_cases o job c (script place).sink with ⟨hd, -⟩ | ⟨log, hplot⟩
    · exact absurd (h.symm.trans hd) Bool.false_ne_true
    · rw [hplot]
      exact session_ne_overflow

/-- **Without `debug` a run goes as its session does**: it ends alike and leaves what that sends. -/
theorem leaves_session (script : Place → Script) (h : o.debug = false)
    (hi : o.Inputs files.read job c) (ho : o.Opens files place opened) :
    (o.render files script).2.ending = (session job c (script place).sink).ending ∧
      o.Leaves files (session job c (script place).sink).taken place (o.render files script).1
        (o.render files script).2 := by
  obtain ⟨log, hrender⟩ := render_eq_session script hi ho (render_ne_overflow script h)
  rw [hrender]
  exact ⟨rfl, ho.leaves rfl rfl⟩

/-! ## When a run ends well -/

/-- **All that a run needs**: its inputs, a valid scale, and an output that opens and takes every
byte of the session. -/
structure Ready (o : RenderOptions) (files : Files) (script : Place → Script) (job : Job)
    (c : Config) (place : Place) (opened : Files) : Prop where
  inputs : o.Inputs files.read job c
  scale : Positive c.scale
  opens : o.Opens files place opened
  accepts : (script place).sink.TakesAll (job.texts c)

/-- **A run ends well** exactly if it has all that it needs. -/
theorem ending_eq_success (h : o.debug = false) : (o.render files script).2.ending = .success ↔
    ∃ job c place opened, o.Ready files script job c place opened := by
  constructor
  · intro hsuccess
    rcases render_cases o files script with ⟨f, -, hrender⟩ | ⟨path, fault, -, hrender⟩ |
      ⟨job, c, place, opened, hi, ho⟩
    · rw [hrender] at hsuccess
      cases hsuccess
    · rw [hrender] at hsuccess
      cases hsuccess
    · rw [(leaves_session script h hi ho).1, session_eq_success_iff] at hsuccess
      exact ⟨job, c, place, opened, hi, hsuccess.1, ho, hsuccess.2⟩
  · rintro ⟨job, c, place, opened, hi, hscale, ho, haccepts⟩
    rw [(leaves_session script h hi ho).1]
    exact session_eq_success_iff.mpr ⟨hscale, haccepts⟩

/-- The run with another output. -/
def withOutput (o : RenderOptions) (output : Option String) : RenderOptions := { o with output }

/-- **The command line refines the library**, on any files and any output. A run without `debug`
ends well exactly if the job can be read, the settings that it begins with are there, a scale among
the options is valid, so is the scale that is left in the end, and the output opens and takes every
byte of every statement. With its inputs and its output it ends as a session of the library with
these settings does on that output, and leaves behind what the session has sent, be it all or the
head that the output took. All is what the session sends to a sink that takes everything, so the
bytes are the same for any two outputs that take them. Refused operations make no difference to how
a run ends. Where the options give a scale, that of the other settings does not matter. -/
theorem render_refines_session (o : RenderOptions) (files : Files) (script : Place → Script)
    (h : o.debug = false) :
    ((o.render files script).2.ending.code = 0 ↔
      ∃ job c place opened, o.Ready files script job c place opened) ∧
    (∀ job c place opened, o.Inputs files.read job c → o.Opens files place opened →
      ∃ bytes, job.Sends c (script place).sink (o.render files script).2.ending bytes ∧
        o.Leaves files bytes place (o.render files script).1 (o.render files script).2) ∧
    (∀ job c, Positive c.scale →
      ∃ s a, Session.start c .accepting = .ok (s, a) ∧ (job.run s).2.delivery.result = .ok () ∧
        (∀ script ending bytes, job.Sends c (Script.sink script) ending bytes →
          bytes <+: (job.run s).1.sink.taken) ∧
        ∀ output script place opened,
          (o.withOutput output).Ready files script job c place opened →
            (o.withOutput output).Leaves files (job.run s).1.sink.taken place
              ((o.withOutput output).render files script).1
              ((o.withOutput output).render files script).2) ∧
    (∀ files' job k c place opened opened', o.Inputs files.read job c → o.Inputs files'.read k c →
      o.Opens files place opened → o.Opens files' place opened' →
      k.operations = job.operations.filter (Operation.accepted (.ofConfig c)) →
        (o.render files' script).2.ending = (o.render files script).2.ending) ∧
    ∀ v, o.scale = some v →
      ((o.render files script).2.ending.code = 0 ↔ Positive v ∧ ∃ job base place opened,
        (∃ text, files.read o.job = .ok text ∧ Json.read Document.job text = .ok job) ∧
          o.Base files.read job base ∧ o.Opens files place opened ∧
            (script place).sink.TakesAll (job.texts { base with scale := v })) := by
  have hcode : (o.render files script).2.ending.code = 0 ↔
      ∃ job c place opened, o.Ready files script job c place opened :=
    Ending.code_eq_zero.trans (ending_eq_success h)
  refine ⟨hcode, ?_, ?_, ?_, ?_⟩
  · intro job c place opened hi ho
    obtain ⟨hending, hleaves⟩ := leaves_session script h hi ho
    exact ⟨_, hending ▸ sends_session, hleaves⟩
  · intro job c hscale
    obtain ⟨s, a, hstart, hrun, htaken⟩ := start_of_positive hscale job
    refine ⟨s, a, hstart, hrun, ?_, ?_⟩
    · intro script ending bytes hsends
      rw [htaken]
      exact hsends.isPrefix.1
    · intro output script place opened hready
      have hquiet : (o.withOutput output).debug = false := h
      obtain ⟨-, hleaves⟩ := leaves_session script hquiet hready.inputs hready.opens
      have hsuccess := session_eq_success_iff.mpr ⟨hscale, hready.accepts⟩
      rwa [sends_session.isPrefix.2 hsuccess, ← htaken] at hleaves
  · intro files' job k c place opened opened' hi hi' ho ho' hk
    rw [(leaves_session script h hi ho).1, (leaves_session script h hi' ho').1]
    exact ending_session_filter hk
  · intro v hv
    rw [hcode]
    constructor
    · rintro ⟨job, c, place, opened, ⟨hparsed, hscale, base, hbase, rfl⟩, -, ho, haccepts⟩
      rw [hv] at haccepts
      exact ⟨hscale v hv, job, base, place, opened, hparsed, hbase, ho, haccepts⟩
    · rintro ⟨hpositive, job, base, place, opened, hparsed, hbase, ho, haccepts⟩
      have hscale : ∀ w, o.scale = some w → Positive w := by
        intro w hw
        rw [hv, Option.some.injEq] at hw
        exact hw ▸ hpositive
      have hi : o.Inputs files.read job
          { base with scale := o.scale.getD base.scale, debug := base.debug || o.debug } :=
        ⟨hparsed, hscale, base, hbase, rfl⟩
      refine ⟨job, _, place, opened, hi, (hi.scale_eq hv).symm ▸ hpositive, ho, ?_⟩
      rw [hv]
      exact haccepts

/-- A job whose own scale is zero and whose second operation is refused, at a scale among the
options: the output, which is found from the root and held something, takes everything or runs out
of room in the third statement. -/
theorem render_refines_session_scale :
    let job := "\x7b\"plotter\":[[0,0,10365,7962],0],\"operations\":[[\"pen\",1],[\"pen\",9]," ++
      "[\"send_to\",[1,2]],[\"park\"]]\x7d"
    let files := Files.ofTexts [("job.json", job), ("out.plt", "IN;SP3;PU;")]
    let o : RenderOptions :=
      ⟨"job.json", some "/tmp/../tmp/working directory/out.plt", none, none, some 2.5, false⟩
    let room : Place → Script :=
      fun _ => ⟨[.takeAll, .takeAtMost 9, .takeAtMost 2, .fail (.system .noSpace)], []⟩
    o.debug = false ∧
      ((o.render files Place.script).2.ending.code = 0 ∧
        (o.render files Place.script).1.read "out.plt" = .ok "IN;SP1;PU2.5,5;PU;SP0;" ∧
        ∃ job c place opened, o.Ready files Place.script job c place opened) ∧
      (o.render files room).2.ending = .failed (.undelivered (.system .noSpace)) ∧
        (o.render files room).1.read "out.plt" = .ok "IN;SP1;PU" ∧
        ¬ ∃ job c place opened, o.Ready files room job c place opened := by
  intro job files o room
  have hcode : (o.render files Place.script).2.ending.code = 0 := by decide +kernel
  have hending : (o.render files room).2.ending = .failed (.undelivered (.system .noSpace)) := by
    decide +kernel
  refine ⟨rfl, ⟨hcode, by decide +kernel, ?_⟩, hending, by decide +kernel, ?_⟩
  · exact (render_refines_session o files Place.script rfl).1.mp hcode
  · intro hready
    have hroom := (render_refines_session o files room rfl).1.mpr hready
    rw [hending] at hroom
    cases hroom

/-! ## What a refused run leaves -/

/-- **A run that its inputs are to blame for** writes nothing. It leaves the files alone where it
lacks the job, the settings or a valid scale among the options. Where it has these and the scale of
the settings is invalid, its output is open before that is found out: a file is emptied, or made. -/
theorem refused_render_files (o : RenderOptions) (files : Files) (script : Place → Script)
    (f : RunFailure) (h : (o.render files script).2.ending = .failed f) (hf : f.ofInputs = true) :
    (o.render files script).2.stdout = [] ∧ (o.render files script).2.taken = [] ∧
      (f.precedesOutput = true →
        (∀ job c, ¬ o.Inputs files.read job c) ∧ (o.render files script).1 = files) ∧
      (f.precedesOutput = false →
        o.scale = none ∧ ∃ job c place opened, o.Inputs files.read job c ∧ ¬ Positive c.scale ∧
          f = .notStarted (.invalidScale c.scale) ∧ o.Opens files place opened ∧
            o.Leaves files [] place (o.render files script).1 (o.render files script).2) := by
  rcases render_cases o files script with ⟨g, hprepare, hrender⟩ | ⟨path, fault, -, hrender⟩ |
    ⟨job, c, place, opened, hi, ho⟩
  · rw [hrender] at h ⊢
    cases h
    refine ⟨rfl, rfl, fun _ => ⟨?_, rfl⟩, ?_⟩
    · intro job c hi
      rw [prepare_eq_ok.mpr hi] at hprepare
      cases hprepare
    · intro hopened
      rw [prepare_eq_error hprepare] at hopened
      cases hopened
  · rw [hrender] at h
    cases h
    cases hf
  · obtain ⟨log, hrender⟩ := render_eq_session script hi ho (by rw [h]; nofun)
    rw [hrender] at h
    obtain ⟨hscale, rfl⟩ := not_positive_of_failed h hf
    rw [hrender, session_of_not_positive hscale]
    refine ⟨place.shown_nil, rfl, nofun, fun _ => ⟨?_, job, c, place, opened, hi, hscale, rfl, ho,
      ho.leaves rfl rfl⟩⟩
    rcases hv : o.scale with _ | v
    · rfl
    · exact absurd (hi.scale_eq hv ▸ hi.scale v hv) hscale

/-- A scale of zero among the options, and an output that held something. -/
theorem refused_render_files_scale :
    let files := Files.ofTexts [("job.json", "\x7b\"operations\":[]\x7d"), ("out.plt", "IN;SP1;")]
    let o : RenderOptions := ⟨"job.json", some "out.plt", none, none, some 0, false⟩
    (o.render files Place.script).2.ending = .failed (.invalidScale 0) ∧
      (RunFailure.invalidScale 0).ofInputs = true ∧ (o.render files Place.script).1 = files := by
  intro files o
  have hending : (o.render files Place.script).2.ending = .failed (.invalidScale 0) := by
    decide +kernel
  exact ⟨hending, rfl, ((refused_render_files o files _ _ hending rfl).2.2.1 rfl).2⟩

/-- **A scale of zero in the job** is refused like one among the options, but the output is empty
then, or has been made. -/
theorem render_empties_output :
    let job := ("job.json", "\x7b\"plotter\":\x7b\"bounds\":\x7b\"x_min\":0,\"y_min\":0," ++
      "\"x_max\":10365,\"y_max\":7962\x7d,\"scale\":0\x7d,\"operations\":[]\x7d")
    let o : RenderOptions := ⟨"job.json", some "out.plt", none, none, none, false⟩
    let old := Files.ofTexts [job, ("out.plt", "IN;SP1;")]
    let new := Files.ofTexts [job]
    ((o.render old Place.script).2.ending = .failed (.notStarted (.invalidScale 0)) ∧
        old.read "out.plt" = .ok "IN;SP1;" ∧
        (o.render old Place.script).1.read "out.plt" = .ok "") ∧
      (o.render new Place.script).2.ending = .failed (.notStarted (.invalidScale 0)) ∧
        new.read "out.plt" = .error .notFound ∧
        (o.render new Place.script).1.read "out.plt" = .ok "" := by
  decide +kernel

end RenderOptions

end HpGl
