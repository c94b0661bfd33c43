import HpGl.CommandLine.Arguments
import HpGl.CommandLine.Files
import HpGl.Document.Job
import HpGl.Profile

/-!
# Rendering a job

A run reads the job, settles the settings, opens the output and plots the job onto it. Settings
come from a profile, else from a preset, else from the job, else they are the default.

* `RunFailure`: why a run fails, with its wording and its causes.
* `RenderOptions.prepare`: the job and the settings.
* `RenderOptions.plot`: a session on an open sink.
* `render`: a whole run on files, with outputs that follow scripts.
-/

namespace HpGl

/-- Why a run fails. -/
inductive RunFailure where
  | unreadableJob (path : String) (fault : SystemFault)
  | invalidJob (path : String)
  | unreadableProfile (path : String) (fault : SystemFault)
  | invalidProfile (path : String)
  | unknownPreset (name : String)
  | invalidScale (scale : Float)
  | unopened (path : String) (fault : SystemFault)
  | notStarted (cause : Refusal)
  | firstUndelivered (fault : SinkFault)
  | undelivered (fault : SinkFault)
  deriving DecidableEq

namespace RunFailure

/-- The wording of a failure. -/
def message : RunFailure → String
  | unreadableJob p _ => "reading job " ++ p
  | invalidJob p => "parsing job " ++ p
  | unreadableProfile p _ => "reading profile " ++ p
  | invalidProfile p => "parsing profile " ++ p
  | unknownPreset n =>
    "Unknown preset: " ++ n ++ " (available: " ++ ", ".intercalate Config.presetNames ++ ")"
  | invalidScale s => "scale must be a positive number, got " ++ Layout.display.render s
  | unopened p _ => "opening " ++ p
  | notStarted _ => "initializing plotter"
  | firstUndelivered _ => "initializing plotter"
  | undelivered _ => "sending plot job"

/-- What is behind a failure, from the outside in. -/
def causes : RunFailure → List String
  | unreadableJob _ f => [f.message]
  | unreadableProfile _ f => [f.message]
  | unopened _ f => [f.message]
  | notStarted r => [r.message]
  | firstUndelivered f => [f.message, f.cause]
  | undelivered f => [f.message, f.cause]
  | _ => []

/-- A failure and its causes on lines of their own; several causes are numbered. -/
def text (f : RunFailure) : String :=
  let lines := match f.causes with
    | [] => []
    | [c] => ["", "Caused by:", "    " ++ c]
    | cs => "" :: "Caused by:" :: (List.range cs.length).zipWith number cs
  "\n".intercalate (("Error: " ++ f.message) :: lines)
where
  /-- A cause after its number. -/
  number (i : Nat) (c : String) : String :=
    "    " ++ String.ofList (Decimal.digitsOf i) ++ ": " ++ c

end RunFailure

/-- How a run ends. -/
inductive Ending where
  | success
  | failed (failure : RunFailure)
  /-- The size of the device area was asked for, and 32 bits do not hold it. -/
  | overflow
  deriving DecidableEq

/-- The exit code of an ending. -/
def Ending.code : Ending → Nat
  | success => 0
  | failed _ => 1
  | overflow => 101

/-- The outcome of a run. -/
structure Report where
  ending : Ending
  /-- The bytes that the output took, wherever it goes. -/
  taken : List UInt8
  /-- The bytes on standard output. -/
  stdout : List UInt8
  log : List LogEntry

namespace Report

/-- A failure before anything is put out. -/
def failed (f : RunFailure) : Report := ⟨.failed f, [], [], []⟩

/-- A text on standard output. -/
def printed (text : String) : Report := ⟨.success, text.toUTF8.toList, text.toUTF8.toList, []⟩

end Report

/-- Settings by the name of a preset. -/
def findPreset (name : String) : Except RunFailure Config :=
  match Config.preset? name with
  | some c => .ok c
  | none => .error (.unknownPreset name)

/-- The list of presets, or the profile of one. -/
def showPreset : Option String → Except RunFailure String
  | none => .ok (String.join (Config.presetNames.map (· ++ "\n")))
  | some name => (findPreset name).map Profile.render

namespace RenderOptions

variable (o : RenderOptions)

/-- The log shows warnings, or everything. -/
def level : LogLevel := if o.debug then .debug else .warn

/-- Entries that the log shows. -/
def shown (entries : List LogEntry) : List LogEntry :=
  entries.filter fun e => o.level.shows e.level

/-- An entry of the program itself. -/
def info (text : String) : LogEntry := ⟨.info, "penplot", text⟩

/-- The settings before the options that override them one by one. -/
def baseConfig (read : String → Except SystemFault String) (job : Job) : Except RunFailure Config :=
  match o.profile, o.preset with
  | some path, _ =>
    match read path with
    | .error f => .error (.unreadableProfile path f)
    | .ok text =>
      match Profile.read? text with
      | some c => .ok c
      | none => .error (.invalidProfile path)
  | none, some name => findPreset name
  | none, none => .ok job.config

/-- The scale of the options in the place of that of the settings. -/
def withScale (c : Config) : Except RunFailure Config :=
  match o.scale with
  | none => .ok c
  | some s =>
    let c := { c with scale := s }
    if c.hasValidScale then .ok c else .error (.invalidScale s)

/-- The job and the settings of its session. -/
def prepare (read : String → Except SystemFault String) : Except RunFailure (Job × Config) :=
  match read o.job with
  | .error f => .error (.unreadableJob o.job f)
  | .ok text =>
    match Json.read Document.job text with
    | .error _ => .error (.invalidJob o.job)
    | .ok job => do
      let c ← o.withScale (← o.baseConfig read job)
      return (job, if o.debug then { c with debug := true } else c)

/-- The entry that precedes a session, absent when 32 bits do not hold the size of the area. -/
def announcement? (job : Job) (c : Config) : Option LogEntry := do
  let width ← c.bounds.width?
  let height ← c.bounds.height?
  return info ("plotting " ++ String.ofList (Decimal.digitsOf job.operations.length) ++
    " operations, scale " ++ Layout.display.render c.scale ++ ", origin (" ++ show32 c.bounds.xMin ++
    ", " ++ show32 c.bounds.yMin ++ "), device area " ++ show32 width ++ "x" ++ show32 height)
where
  /-- An integer in the log. -/
  show32 (n : Int32) : String := String.ofList (integerChars n.toInt)

/-- A job on an open sink: what the sink took, and in which calls, how the run ends and what is
logged. -/
structure Plotted where
  taken : List UInt8
  writes : List WriteCall
  ending : Ending
  log : List LogEntry

/-- A session on an open sink. -/
def session (job : Job) (c : Config) (sink : Sink) : Plotted :=
  match Session.start c sink with
  | .error (.refused cause) => ⟨[], [], .failed (.notStarted cause), []⟩
  | .error (.undelivered a f) =>
    ⟨a.delivery.sent, a.delivery.writes, .failed (.firstUndelivered f),
      a.events.map Event.logEntry⟩
  | .ok (s, a) =>
    let (s, b) := job.run s
    let ending := match b.delivery.result with
      | .ok () => .success
      | .error f => .failed (.undelivered f)
    let both := a.andThen b
    ⟨s.sink.taken, both.delivery.writes, ending, both.events.map Event.logEntry⟩

/-- The entry that ends a run with an output of its own. -/
def closing (ending : Ending) : List LogEntry :=
  match ending, o.output with
  | .success, some path => [info ("wrote HP-GL to " ++ path)]
  | _, _ => []

/-- A session with the entries around it. The size of the area is computed only for a log that
shows it. -/
def plot (job : Job) (c : Config) (sink : Sink) : Plotted :=
  let run := session job c sink
  if o.level.shows .info then
    match announcement? job c with
    | none => ⟨[], [], .overflow, []⟩
    | some entry => { run with log := entry :: (run.log ++ o.closing run.ending) }
  else { run with log := o.shown run.log }

/-- The place of the output, and the files once it is open. -/
def openOutput (files : Files) : Except RunFailure (Place × Files) :=
  match o.output with
  | none => .ok (.device .stdout, files)
  | some path =>
    match files.create path with
    | .ok r => .ok r
    | .error f => .error (.unopened path f)

/-- A whole run, where the outputs follow scripts. A script tells all that an output takes of a
statement on which it fails, also what it takes only once it is closed. -/
def render (files : Files) (script : Place → Script) : Files × Report :=
  match o.prepare files.read with
  | .error f => (files, .failed f)
  | .ok (job, c) =>
    match o.openOutput files with
    | .error f => (files, .failed f)
    | .ok (place, opened) =>
      let run := o.plot job c (script place).sink
      (place.keep opened run.taken, ⟨run.ending, run.taken, place.shown run.taken, run.log⟩)

end RenderOptions

namespace Invocation

/-- What an invocation does. -/
def run (i : Invocation) (files : Files) (script : Place → Script := Place.script) :
    Files × Report :=
  match i with
  | .render o => o.render files script
  | .preset name =>
    match showPreset name with
    | .ok text => (files, .printed text)
    | .error f => (files, .failed f)
  | .help => (files, .printed usage)

end Invocation

end HpGl
