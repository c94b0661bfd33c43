import HpGl.Proofs.CommandLine.Rendering
import HpGl.Proofs.Json.Finite
import HpGl.Proofs.Toml

/-!
# Profiles read back

The text of settings is a profile with the same settings, whatever the area, the scale and `debug`
are. So it does not matter to a run whether it finds its settings in a profile or elsewhere.

* `Profile.lines`: the lines of a profile; `chars_eq_flatMap`, `scans_lines`.
* `Profile.entries`: the table of a profile; `build?_lines`, `ofEntries?_entries`.
* **`Profile.read?_render`**: a profile is read as what it was written for.
* `RenderOptions.render_congr`: runs with the same operations and the same settings.
* **`profile_round_trip`**: a run with a profile.
-/

namespace HpGl

/-! ## The text of settings -/

namespace Profile

open Toml (Item Entries Line IsBare Scalar Scans)

variable (c : Config)

/-- The lines of a profile, and what is scanned for them. -/
def lines : List (List Char × Line) := [
  (assignment "scale" (Layout.toml.chars c.scale), .assign ⟨[], "scale"⟩ (.float c.scale)),
  (assignment "debug" (if c.debug then "true".toList else "false".toList),
    .assign ⟨[], "debug"⟩ (.boolean c.debug)),
  (['\n'], .blank),
  ("[bounds]\n".toList, .table ⟨[], "bounds"⟩),
  corner "x_min" c.bounds.xMin,
  corner "y_min" c.bounds.yMin,
  corner "x_max" c.bounds.xMax,
  corner "y_max" c.bounds.yMax]
where
  /-- A line with a coordinate of the area. -/
  corner (key : String) (n : Int32) : List Char × Line :=
    (assignment key (integerChars n.toInt), .assign ⟨[], key⟩ (.integer n.toInt))

theorem chars_eq_flatMap : chars c = (lines c).flatMap Prod.fst := by
  simp [chars, lines, lines.corner]

variable {c}

theorem scans_assignment {key : String} {value : List Char} {i : Item} (hk : IsBare key)
    (hv : Scalar value i) : Scans (assignment key value) (.assign ⟨[], key⟩ i) :=
  .assign hk hv

theorem scans_corner {key : String} (hk : IsBare key) (n : Int32) :
    Scans (lines.corner key n).1 (lines.corner key n).2 := by
  have hlo := n.le_toInt
  have hhi := n.toInt_lt
  exact scans_assignment hk (.integer (by omega) (by omega))

/-- **Every line of a profile is scanned as it was written.** -/
theorem scans_lines : ∀ p ∈ lines c, Scans p.1 p.2 := by
  have hbounds : Scans "[bounds]\n".toList (.table ⟨[], "bounds"⟩) :=
    Scans.header (⟨by decide, by decide⟩ : IsBare "bounds")
  simp only [lines, List.forall_mem_cons]
  refine ⟨scans_assignment ⟨by decide, by decide⟩ (.float _),
    scans_assignment ⟨by decide, by decide⟩ (.boolean _), .blank, hbounds, ?_, ?_, ?_, ?_, nofun⟩
  all_goals exact scans_corner ⟨by decide, by decide⟩ _

variable (c)

/-- **The table of a profile.** -/
def entries : Entries := [
  ("scale", .float c.scale), ("debug", .boolean c.debug),
  ("bounds", .table .header [
    ("x_min", .integer c.bounds.xMin.toInt), ("y_min", .integer c.bounds.yMin.toInt),
    ("x_max", .integer c.bounds.xMax.toInt), ("y_max", .integer c.bounds.yMax.toInt)])]

theorem build?_lines : Toml.build? ((lines c).map Prod.snd) = some (entries c) := by
  rfl

theorem int32?_toInt (n : Int32) : int32? (.integer n.toInt) = some n := by
  rw [int32?, if_pos ⟨n.le_toInt, n.toInt_lt⟩, Int32.ofInt_toInt]

theorem bounds?_corners (origin : Toml.Origin) (b : Bounds) : bounds? (.table origin [
    ("x_min", .integer b.xMin.toInt), ("y_min", .integer b.yMin.toInt),
    ("x_max", .integer b.xMax.toInt), ("y_max", .integer b.yMax.toInt)]) = some b := by
  simp [bounds?, List.lookup_cons, int32?_toInt]

theorem ofEntries?_entries : ofEntries? (entries c) = some c := by
  have hbounds : (entries c).lookup "bounds" = some (.table .header [
    ("x_min", .integer c.bounds.xMin.toInt), ("y_min", .integer c.bounds.yMin.toInt),
    ("x_max", .integer c.bounds.xMax.toInt), ("y_max", .integer c.bounds.yMax.toInt)]) := rfl
  have hscale : (entries c).lookup "scale" = some (.float c.scale) := rfl
  have hdebug : (entries c).lookup "debug" = some (.boolean c.debug) := rfl
  simp [ofEntries?, hbounds, hscale, hdebug, bounds?_corners, number?, boolean?]

/-- **A profile is read as what it was written for.** -/
theorem read?_render : read? (render c) = some c := by
  have hscan : Toml.scanLines (render c) = some ((lines c).map Prod.snd) := by
    rw [render, Toml.scanLines, String.toList_ofList, chars_eq_flatMap]
    exact Toml.scanLinesUpTo_flatMap scans_lines le_rfl
  rw [read?, Toml.read?, hscan, Option.bind_some, build?_lines, Option.bind_some,
    ofEntries?_entries]

end Profile

/-! ## A run with a profile -/

namespace RenderOptions

variable {o o' : RenderOptions} {files : Files} {script : Place → Script} {job job' : Job}
  {c : Config}

theorem plot_congr (houtput : o'.output = o.output) (hdebug : o'.debug = o.debug)
    (hops : job'.operations = job.operations) (c : Config) (sink : Sink) :
    o'.plot job' c sink = o.plot job c sink := by
  cases o
  cases o'
  cases job
  cases job'
  cases houtput
  cases hdebug
  cases hops
  rfl

/-- **Runs with the same operations and the same settings** are the same, wherever they find
them. -/
theorem render_congr (houtput : o'.output = o.output) (hscale : o'.scale = o.scale)
    (hdebug : o'.debug = o.debug) {text text' : String} (hread : files.read o.job = .ok text)
    (hparse : Json.read Document.job text = .ok job) (hread' : files.read o'.job = .ok text')
    (hparse' : Json.read Document.job text' = .ok job') (hops : job'.operations = job.operations)
    (hbase : o.Base files.read job c) (hbase' : o'.Base files.read job' c) :
    o'.render files script = o.render files script := by
  have hplot := plot_congr houtput hdebug hops
  have hopen : o'.openOutput files = o.openOutput files := by
    rw [openOutput, openOutput, houtput]
  have hwith : o'.withScale c = o.withScale c := by
    rw [withScale, withScale, hscale]
  simp only [render, prepare_of_parsed hread hparse, prepare_of_parsed hread' hparse',
    baseConfig_eq_ok.mpr hbase, baseConfig_eq_ok.mpr hbase', hwith, hdebug, hopen]
  rcases o.withScale c with f | c
  · rfl
  · simp only [hplot]

end RenderOptions

/-- **Profiles round-trip.** The text of settings is read as the same settings: four coordinates of
32 bits, a double of any kind, and the flag. There is one NaN among the doubles, so a scale that is
none comes back too.

A run that finds this text in its profile goes on with these settings, as far as its options do
not put others in their place: it leaves and prints what is plotted with them, whatever its output
does. Any run that comes to the same settings in another way, and to the same operations, leaves and
prints the same. -/
theorem profile_round_trip :
    (∀ c, Profile.read? (Profile.render c) = some c) ∧
    ∀ (o : RenderOptions) (files : Files) (script : Place → Script) (path text : String) (job : Job)
      (c : Config), o.profile = some path → files.read path = .ok (Profile.render c) →
      files.read o.job = .ok text → Json.read Document.job text = .ok job →
        (∀ place opened, o.Opens files place opened → (∀ v, o.scale = some v → Positive v) →
          let run := o.plot job
            { c with scale := o.scale.getD c.scale, debug := c.debug || o.debug }
            (script place).sink
          o.render files script = (place.keep opened run.taken,
            ⟨run.ending, run.taken, place.shown run.taken, run.log⟩)) ∧
        ∀ (o' : RenderOptions) (text' : String) (job' : Job),
          o'.output = o.output → o'.scale = o.scale → o'.debug = o.debug →
          files.read o'.job = .ok text' → Json.read Document.job text' = .ok job' →
          job'.operations = job.operations → o'.Base files.read job' c →
            o'.render files script = o.render files script := by
  refine ⟨Profile.read?_render,
    fun o files script path text job c hprofile hfile hread hparse => ?_⟩
  have hbase : o.Base files.read job c := .profile hprofile hfile (Profile.read?_render c)
  refine ⟨fun place opened hopens hscale => ?_, ?_⟩
  · exact RenderOptions.render_of_inputs ⟨⟨text, hread, hparse⟩, hscale, c, hbase, rfl⟩ hopens
  · intro o' text' job' houtput hscale hdebug hread' hparse' hops hbase'
    exact RenderOptions.render_congr houtput hscale hdebug hread hparse hread' hparse' hops hbase
      hbase'

/-- An area with both ends of its range, from a profile and from the job. -/
theorem profile_round_trip_extremes :
    let c : Config := ⟨⟨-0x80000000, 0x7fffffff, -1, 0⟩, 0.5, false⟩
    let operations := "\"operations\":[[\"pen\",1],[\"send_to\",[1,2]],[\"park\"]]\x7d"
    let text := "\x7b" ++ operations
    let own := "\x7b\"plotter\":[[-2147483648,2147483647,-1,0],0.5]," ++ operations
    let files := Files.ofTexts
      [("job.json", text), ("own.json", own), ("wide.toml", Profile.render c)]
    let o : RenderOptions := ⟨"job.json", some "out.plt", some "wide.toml", none, none, false⟩
    let o' : RenderOptions := ⟨"own.json", some "out.plt", none, none, none, false⟩
    Profile.read? (Profile.render c) = some c ∧
      o'.render files Place.script = o.render files Place.script ∧
        (o.render files Place.script).1.read "out.plt" =
          .ok "IN;SP1;PU-2147483647.5,2147483648;PU;SP0;" := by
  intro c operations text own files o o'
  let ops : List Operation := [.pen 1, .sendTo ⟨1, 2⟩, .park]
  have hfile : files.read "wide.toml" = .ok (Profile.render c) := by decide +kernel
  have hread : files.read "job.json" = .ok text := by decide +kernel
  have hread' : files.read "own.json" = .ok own := by decide +kernel
  have hparse : Json.read Document.job text = .ok ⟨none, ops⟩ :=
    Json.eq_ok_of_toOption (by decide +kernel)
  have hparse' : Json.read Document.job own = .ok ⟨some c, ops⟩ :=
    Json.eq_ok_of_toOption (by decide +kernel)
  obtain ⟨hrender, hrun⟩ := profile_round_trip
  refine ⟨hrender c, ?_, by decide +kernel⟩
  exact (hrun o files Place.script "wide.toml" text _ c rfl hfile hread hparse).2 o' own _ rfl rfl
    rfl hread' hparse' rfl (.own rfl rfl rfl)

end HpGl
