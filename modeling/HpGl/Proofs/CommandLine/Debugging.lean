import HpGl.Proofs.CommandLine.Rendering
import HpGl.Proofs.StatementLog

/-!
# Runs with and without `debug`

With `debug` a run logs the size of the device area before its session and the statements during
it. The session is the same, but the size is computed for the log alone, and 32 bits may not hold
it.

* `Bounds.Fits`: 32 bits hold the size of an area; `announcement?_isSome`.
* `session_quiet`: a session under settings without `debug`.
* `prepare_debug`: the inputs of a run with `debug`.
* **`render_debug`**: a run with `debug` and the same run without.
-/

namespace HpGl

/-- 32 bits hold the size of the area. -/
def Bounds.Fits (b : Bounds) : Prop :=
  (-0x80000000 ≤ b.xMax.toInt - b.xMin.toInt ∧ b.xMax.toInt - b.xMin.toInt < 0x80000000) ∧
    -0x80000000 ≤ b.yMax.toInt - b.yMin.toInt ∧ b.yMax.toInt - b.yMin.toInt < 0x80000000

theorem Bounds.difference?_isSome {a b : Int32} : (difference? a b).isSome = true ↔
    -0x80000000 ≤ a.toInt - b.toInt ∧ a.toInt - b.toInt < 0x80000000 := by
  unfold difference?
  dsimp only
  split <;> rename_i h <;> simpa using h

/-- The part of an entry that a log without `debug` keeps. -/
def LogEntry.isWarning (e : LogEntry) : Bool := LogLevel.warn.shows e.level

theorem Outcome.log_quiet (o : Outcome) : o.quiet.events.map Event.logEntry =
    (o.events.map Event.logEntry).filter LogEntry.isWarning := by
  simp only [quiet, events, List.map_filterMap, List.filter_filterMap, List.filterMap_filter]
  apply List.filterMap_congr
  intro e _
  rcases e with (st | ⟨op, cause⟩) | call | _ <;> rfl

namespace RenderOptions

variable {o : RenderOptions} {files : Files} {job : Job} {c : Config} {sink : Sink}

theorem announcement?_isSome : (announcement? job c).isSome = true ↔ c.bounds.Fits := by
  unfold Bounds.Fits
  rw [← Bounds.difference?_isSome, ← Bounds.difference?_isSome]
  change _ ↔ c.bounds.width?.isSome = true ∧ c.bounds.height?.isSome = true
  unfold announcement?
  rcases c.bounds.width? with _ | w <;> rcases c.bounds.height? with _ | h <;> simp

theorem announcement?_isWarning {entry : LogEntry} (h : announcement? job c = some entry) :
    entry.isWarning = false := by
  obtain ⟨width, -, h⟩ := Option.bind_eq_some_iff.mp h
  obtain ⟨height, -, h⟩ := Option.bind_eq_some_iff.mp h
  cases h
  rfl

/-- **A session under settings without `debug`** does the same, and its log has the warnings. -/
theorem session_quiet : session job c.quiet sink =
    { session job c sink with log := (session job c sink).log.filter LogEntry.isWarning } := by
  unfold session
  rw [Session.start_quiet]
  rcases Session.start c sink with (cause | ⟨a, f⟩) | ⟨s, a⟩
  · rfl
  · dsimp only
    rw [a.log_quiet]
    rfl
  · have hrun : job.run s.quiet = ((job.run s).1.quiet, (job.run s).2.quiet) :=
      s.performAll_quiet _
    dsimp only
    rw [hrun, ← Outcome.log_quiet, Outcome.quiet_andThen]
    rfl

/-- The run with or without `debug`. -/
def withDebug (o : RenderOptions) (debug : Bool) : RenderOptions := { o with debug }

/-- **The inputs of a run with `debug`** are those of the run without, and the settings say so. -/
theorem prepare_debug (o : RenderOptions) (read : String → Except SystemFault String) :
    (o.withDebug true).prepare read =
      ((o.withDebug false).prepare read).map fun (job, c) => (job, { c with debug := true }) := by
  rcases hread : read o.job with f | text
  · simp [prepare, withDebug, hread, Except.map]
  rcases hparse : Json.read Document.job text with e | job
  · simp [prepare, withDebug, hread, hparse, Except.map]
  have hbase (b : Bool) : (o.withDebug b).baseConfig read job = o.baseConfig read job := rfl
  have hscale (b : Bool) (base : Config) : (o.withDebug b).withScale base = o.withScale base := rfl
  rw [prepare_of_parsed (o := o.withDebug true) hread hparse,
    prepare_of_parsed (o := o.withDebug false) hread hparse, hbase, hbase]
  rcases o.baseConfig read job with f | base
  · rfl
  · simp only [hscale]
    rcases o.withScale base with f | c <;> rfl

/-! ## What is plotted -/

theorem plot_withDebug_false : (o.withDebug false).plot job c sink = session job c.quiet sink := by
  rw [session_quiet]
  rfl

theorem plot_withDebug_true_of_not_fits (h : ¬ c.bounds.Fits) :
    (o.withDebug true).plot job c sink = ⟨[], [], .overflow, []⟩ := by
  have hnone : announcement? job c = none := by
    rw [← Option.not_isSome_iff_eq_none]
    exact h ∘ announcement?_isSome.mp
  have hshows : (o.withDebug true).level.shows .info = true := rfl
  simp only [plot, hshows, if_true, hnone]

theorem plot_withDebug_true_of_fits (o : RenderOptions) (job : Job) (sink : Sink)
    (h : c.bounds.Fits) :
    ∃ log, (o.withDebug true).plot job { c with debug := true } sink =
        { session job { c with debug := true } sink with log } ∧
      (o.withDebug false).plot job c sink =
        { session job { c with debug := true } sink with
          log := log.filter LogEntry.isWarning } := by
  have hquiet : c.quiet = Config.quiet { c with debug := true } := rfl
  obtain ⟨entry, hentry⟩ : ∃ e, announcement? job { c with debug := true } = some e :=
    Option.isSome_iff_exists.mp (announcement?_isSome.mpr h)
  have hinfo : entry.isWarning = false := announcement?_isWarning hentry
  have hclosing (e : Ending) : (o.closing e).filter LogEntry.isWarning = [] := by
    unfold closing
    split <;> rfl
  have hshows : (o.withDebug true).level.shows .info = true := rfl
  refine ⟨entry :: ((session job { c with debug := true } sink).log ++
    o.closing (session job { c with debug := true } sink).ending), ?_, ?_⟩
  · simp only [plot, hshows, if_true, hentry]
    rfl
  · rw [plot_withDebug_false, hquiet, session_quiet, List.filter_cons, hinfo, List.filter_append,
      hclosing, List.append_nil]
    rfl

/-! ## Two runs -/

theorem opens_withDebug {place : Place} {opened : Files} (b : Bool) :
    (o.withDebug b).Opens files place opened ↔ o.Opens files place opened := by
  rw [← openOutput_eq_ok, ← openOutput_eq_ok]
  rfl

/-- With and without `debug` a run fails alike before it plots, or it comes to that. -/
theorem render_withDebug_cases (o : RenderOptions) (files : Files) (script : Place → Script) :
    (∃ f, (∀ b, (o.withDebug b).render files script = (files, .failed f)) ∧
      ∀ job c place opened, (o.withDebug true).Inputs files.read job c →
        ¬ o.Opens files place opened) ∨
    ∃ job c place opened, (o.withDebug false).Inputs files.read job c ∧
      (o.withDebug true).Inputs files.read job { c with debug := true } ∧
        o.Opens files place opened := by
  have hon := o.prepare_debug files.read
  have hopen (b : Bool) : (o.withDebug b).openOutput files = o.openOutput files := rfl
  rcases hoff : (o.withDebug false).prepare files.read with f | ⟨job, c⟩
  · rw [hoff] at hon
    refine .inl ⟨f, ?_, ?_⟩
    · rintro (_ | _)
      · simp only [render, hoff]
      · simp only [render, hon, Except.map]
    · intro job c place opened hi
      rw [prepare_eq_ok.mpr hi] at hon
      cases hon
  rw [hoff] at hon
  rcases hopened : o.openOutput files with f | ⟨place, opened⟩
  · refine .inl ⟨f, ?_, ?_⟩
    · rintro (_ | _)
      · simp only [render, hoff, hopen, hopened]
      · simp only [render, hon, Except.map, hopen, hopened]
    · intro job c place opened _ ho
      rw [openOutput_eq_ok.mpr ho] at hopened
      cases hopened
  · exact .inr ⟨job, c, place, opened, prepare_eq_ok.mp hoff, prepare_eq_ok.mp hon,
      openOutput_eq_ok.mp hopened⟩

/-- **`debug` adds entries to the log, and nothing else, where 32 bits hold the size of the area.**
Without `debug` a run exits with 0 or 1. With it a run is aborted exactly if it has its inputs and
its output and the area is too large, whether or not the scale is valid and whatever the output
takes; it has then written nothing, but its output is empty. Any other run with `debug` leaves the
same, ends alike and logs the same warnings. -/
theorem render_debug (o : RenderOptions) (files : Files) (script : Place → Script) :
    let on := (o.withDebug true).render files script
    let off := (o.withDebug false).render files script
    (off.2.ending.code = 0 ∨ off.2.ending.code = 1) ∧
      (on.2.ending.code = 101 ↔ ∃ job c place opened,
        (o.withDebug true).Inputs files.read job c ∧ o.Opens files place opened ∧
          ¬ c.bounds.Fits ∧ o.Leaves files [] place on.1 on.2) ∧
      (on.2.ending.code ≠ 101 → on.1 = off.1 ∧ on.2.ending = off.2.ending ∧
        on.2.stdout = off.2.stdout ∧ on.2.taken = off.2.taken ∧
          off.2.log = on.2.log.filter LogEntry.isWarning) := by
  intro on off
  have hover : off.2.ending ≠ .overflow := render_ne_overflow script rfl
  refine ⟨Ending.code_of_ne_overflow hover, ?_⟩
  rw [ne_eq, Ending.code_eq_overflow]
  rcases o.render_withDebug_cases files script with ⟨f, hrender, hlacks⟩ |
    ⟨job, c, place, opened, hi', hi, ho⟩
  · have hon : on = (files, .failed f) := hrender true
    have hoff : off = (files, .failed f) := hrender false
    rw [hon, hoff]
    refine ⟨⟨nofun, ?_⟩, fun _ => ⟨rfl, rfl, rfl, rfl, rfl⟩⟩
    rintro ⟨job, c, place, opened, hi, ho, -⟩
    exact absurd ho (hlacks job c place opened hi)
  -- The size comes before the session, so the scale plays no part in the case that it is too large.
  have hon : on = _ := render_of_inputs hi ((opens_withDebug true).mpr ho)
  have hoff : off = _ := render_of_inputs hi' ((opens_withDebug false).mpr ho)
  by_cases hfits : c.bounds.Fits
  · obtain ⟨log, hplot, hplot'⟩ := plot_withDebug_true_of_fits o job (script place).sink hfits
    rw [hplot] at hon
    rw [hplot'] at hoff
    have hover' : on.2.ending ≠ .overflow := by
      rw [hon]
      exact session_ne_overflow
    refine ⟨⟨fun h => absurd h hover', ?_⟩, fun _ => ?_⟩
    · rintro ⟨job', c', -, -, hi'', -, hlarge, -⟩
      have heq := (prepare_eq_ok.mpr hi).symm.trans (prepare_eq_ok.mpr hi'')
      cases heq
      exact absurd hfits hlarge
    · rw [hon, hoff]
      exact ⟨rfl, rfl, rfl, rfl, rfl⟩
  · rw [plot_withDebug_true_of_not_fits (c := { c with debug := true }) hfits] at hon
    rw [hon]
    refine ⟨⟨fun _ => ?_, fun _ => rfl⟩, fun h => absurd rfl h⟩
    exact ⟨job, _, place, opened, hi, ho, hfits, ho.leaves rfl rfl⟩

/-- An area that begins left of the origin and is as wide as 32 bits allow. -/
theorem render_debug_aborts :
    let files := Files.ofTexts [("job.json", "\x7b\"plotter\":\x7b\"bounds\":\x7b\"x_min\":-1," ++
      "\"y_min\":0,\"x_max\":2147483647,\"y_max\":7962\x7d,\"scale\":1\x7d,\"operations\":[]\x7d")]
    let o : RenderOptions := ⟨"job.json", none, none, none, none, false⟩
    let on := (o.withDebug true).render files Place.script
    let off := (o.withDebug false).render files Place.script
    (on.2.ending.code = 101 ∧ on.2.stdout = []) ∧
      off.2.ending.code = 0 ∧ off.2.stdout = "IN;".toUTF8.toList := by
  decide +kernel

end RenderOptions

end HpGl
