import HpGl.CommandLine.Render
import HpGl.Proofs.Acceptance

/-!
# The inputs of a run

A run reads its job from a file. Its settings are those of a profile, else of a preset, else of the
job, else the default; the options may put a scale and `debug` in their place.

* `RenderOptions.Base`: the settings that a run begins with; `baseConfig_eq_ok`.
* `RenderOptions.Inputs`: the job and the settings of a run; **`prepare_eq_ok`**.
* `RunFailure.precedesOutput`, `RunFailure.ofInputs`: the failures that come before the output is
  opened, and those that the inputs are to blame for; `prepare_eq_error`.
-/

namespace HpGl

theorem Config.hasValidScale_iff {c : Config} : c.hasValidScale = true ↔ Positive c.scale := by
  simp [hasValidScale, Positive]

theorem Config.validate_eq_ok {c : Config} : c.validate = .ok () ↔ Positive c.scale := by
  rw [← hasValidScale_iff, validate]
  split <;> simp [*]

theorem Config.validate_of_not_positive {c : Config} (h : ¬ Positive c.scale) :
    c.validate = .error (.invalidScale c.scale) :=
  if_neg (h ∘ hasValidScale_iff.mp)

/-- The failures of a run that does not come to open its output. -/
def RunFailure.precedesOutput : RunFailure → Bool
  | unreadableJob .. | invalidJob _ => true
  | unreadableProfile .. | invalidProfile _ | unknownPreset _ | invalidScale _ => true
  | unopened .. | notStarted _ | firstUndelivered _ | undelivered _ => false

/-- The failures that the inputs of a run are to blame for: the settings may be refused even when
the output is open. -/
def RunFailure.ofInputs : RunFailure → Bool
  | notStarted _ => true
  | f => f.precedesOutput

namespace RenderOptions

variable (o : RenderOptions) (read : String → Except SystemFault String)

/-- **The settings that a run begins with.** -/
inductive Base (job : Job) : Config → Prop
  | profile {path text : String} {c : Config} (given : o.profile = some path)
      (readable : read path = .ok text) (parsed : Profile.read? text = some c) : Base job c
  | preset {name : String} {c : Config} (noProfile : o.profile = none)
      (given : o.preset = some name) (known : Config.preset? name = some c) : Base job c
  | own {c : Config} (noProfile : o.profile = none) (noPreset : o.preset = none)
      (given : job.plotter = some c) : Base job c
  | default (noProfile : o.profile = none) (noPreset : o.preset = none)
      (noOwn : job.plotter = none) : Base job .letter

/-- **The job and the settings of a run.** -/
structure Inputs (job : Job) (c : Config) : Prop where
  /-- The job can be read, and its text is one, even where its settings are not used. -/
  parsed : ∃ text, read o.job = .ok text ∧ Json.read Document.job text = .ok job
  /-- A scale among the options is positive and finite. -/
  scale : ∀ v, o.scale = some v → Positive v
  /-- The settings are there, and the options override them. -/
  settings : ∃ base, o.Base read job base ∧
    c = { base with scale := o.scale.getD base.scale, debug := base.debug || o.debug }

variable {o read} {job : Job} {c : Config}

theorem Inputs.scale_eq (h : o.Inputs read job c) {v : Float} (hv : o.scale = some v) :
    c.scale = v := by
  obtain ⟨-, -, base, -, rfl⟩ := h
  simp [hv]

/-- **Where the settings come from.** -/
theorem baseConfig_eq_ok : o.baseConfig read job = .ok c ↔ o.Base read job c := by
  unfold baseConfig
  constructor
  · intro h
    split at h
    · rename_i path _ hprofile
      split at h
      · cases h
      · rename_i text hread
        split at h
        · rename_i hparse
          cases h
          exact .profile hprofile hread hparse
        · cases h
    · rename_i name hprofile hpreset
      unfold findPreset at h
      split at h
      · rename_i hknown
        cases h
        exact .preset hprofile hpreset hknown
      · cases h
    · rename_i hprofile hpreset
      cases h
      rcases hown : job.plotter with _ | c
      · rw [Job.config, hown]
        exact .default hprofile hpreset hown
      · rw [Job.config, hown]
        exact .own hprofile hpreset hown
  · rintro (⟨given, readable, parsed⟩ | ⟨noProfile, given, known⟩ | ⟨noProfile, noPreset, given⟩ |
      ⟨noProfile, noPreset, noOwn⟩)
    · simp only [given, readable, parsed]
    · simp only [noProfile, given, findPreset, known]
    · simp only [noProfile, noPreset, Job.config, given, Option.getD_some]
    · simp only [noProfile, noPreset, Job.config, noOwn, Option.getD_none]
      rfl

theorem withScale_eq_ok {base : Config} : o.withScale base = .ok c ↔
    (∀ v, o.scale = some v → Positive v) ∧ c = { base with scale := o.scale.getD base.scale } := by
  unfold withScale
  rcases o.scale with _ | v
  · simp [eq_comm]
  · have hvalid : ({ base with scale := v } : Config).hasValidScale = true ↔ Positive v :=
      Config.hasValidScale_iff
    by_cases hv : Positive v
    · simp only [hvalid.mpr hv, if_true, Except.ok.injEq]
      refine ⟨?_, fun h => h.2.symm⟩
      rintro rfl
      exact ⟨fun _ h => Option.some.inj h ▸ hv, rfl⟩
    · simp only [Bool.eq_false_iff.mpr (hv ∘ hvalid.mp)]
      exact ⟨nofun, fun h => absurd (h.1 v rfl) hv⟩

theorem prepare_of_parsed {text : String} (hread : read o.job = .ok text)
    (hparse : Json.read Document.job text = .ok job) :
    o.prepare read =
      match o.baseConfig read job with
      | .error f => .error f
      | .ok base =>
        match o.withScale base with
        | .error f => .error f
        | .ok c => .ok (job, if o.debug then { c with debug := true } else c) := by
  simp only [prepare, hread, hparse]
  rcases o.baseConfig read job with f | base
  · rfl
  · simp only [bind, Except.bind]
    rcases o.withScale base with f | c <;> rfl

/-- **What a run is prepared with**, and when it is. -/
theorem prepare_eq_ok : o.prepare read = .ok (job, c) ↔ o.Inputs read job c := by
  constructor
  · intro h
    rcases hread : read o.job with f | text
    · simp [prepare, hread] at h
    rcases hparse : Json.read Document.job text with e | job'
    · simp [prepare, hread, hparse] at h
    rw [prepare_of_parsed hread hparse] at h
    split at h
    · cases h
    · rename_i base hbase
      split at h
      · cases h
      · rename_i c' hscale
        cases h
        obtain ⟨hv, rfl⟩ := withScale_eq_ok.mp hscale
        refine ⟨⟨text, hread, hparse⟩, hv, base, baseConfig_eq_ok.mp hbase, ?_⟩
        cases o.debug <;> simp
  · rintro ⟨⟨text, hread, hparse⟩, hv, base, hbase, rfl⟩
    rw [prepare_of_parsed hread hparse, baseConfig_eq_ok.mpr hbase]
    simp only [withScale_eq_ok.mpr ⟨hv, rfl⟩]
    cases o.debug <;> simp

theorem baseConfig_eq_error {f : RunFailure} (h : o.baseConfig read job = .error f) :
    f.precedesOutput = true := by
  unfold baseConfig findPreset at h
  split at h
  · split at h
    · cases h
      rfl
    · split at h <;> cases h
      rfl
  · split at h <;> cases h
    rfl
  · cases h

theorem withScale_eq_error {base : Config} {f : RunFailure} (h : o.withScale base = .error f) :
    f.precedesOutput = true := by
  unfold withScale at h
  split at h
  · cases h
  · dsimp only at h
    split at h <;> cases h
    rfl

/-- **Without its inputs** a run fails before it opens its output. -/
theorem prepare_eq_error {f : RunFailure} (h : o.prepare read = .error f) :
    f.precedesOutput = true := by
  rcases hread : read o.job with g | text
  · simp only [prepare, hread] at h
    cases h
    rfl
  rcases hparse : Json.read Document.job text with e | job
  · simp only [prepare, hread, hparse] at h
    cases h
    rfl
  rw [prepare_of_parsed hread hparse] at h
  split at h
  · rename_i g hbase
    cases h
    exact baseConfig_eq_error hbase
  · split at h
    · rename_i g hscale
      cases h
      exact withScale_eq_error hscale
    · cases h

end RenderOptions

end HpGl
