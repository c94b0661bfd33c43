import HpGl.Decimal.Nearest

/-!
# Arguments

The arguments of the program name a command, its options and its operands, in any order after the
command. An option takes its value from the same argument or from the next one; after `--` all
arguments are operands.

* `Invocation`: what the program is asked to do.
* `Invocation.ofArguments?`: the invocation of a list of arguments, absent for a misuse.
-/

namespace HpGl

/-- The options and the operand of `render`. -/
structure RenderOptions where
  /-- Path of the job. -/
  job : String
  /-- Path of the output; standard output when absent. -/
  output : Option String
  /-- Path of a profile. -/
  profile : Option String
  /-- Name of built-in settings. -/
  preset : Option String
  /-- The scale, whatever the settings say. -/
  scale : Option Float
  /-- Log every statement. -/
  debug : Bool
  deriving DecidableEq

/-- What the program is asked to do. -/
inductive Invocation where
  | render (options : RenderOptions)
  /-- List the names of built-in settings, or show the settings of a name. -/
  | preset (name : Option String)
  | help
  deriving DecidableEq

namespace Arguments

/-- An option that takes a value. -/
inductive Valued where
  | output
  | profile
  | preset
  | scale
  deriving DecidableEq, Repr

/-- What was read of the arguments of `render`. -/
structure Draft where
  job : Option String := none
  output : Option String := none
  profile : Option String := none
  preset : Option String := none
  scale : Option Float := none
  debug : Bool := false

/-- Gives a member its value, which it must not have yet. -/
def once {α : Type} (old : Option α) (new : α) : Option (Option α) :=
  match old with
  | some _ => none
  | none => some (some new)

/-- A path that is not empty. -/
def path? (s : String) : Option String := if s = "" then none else some s

namespace Draft

/-- Gives an option its value. -/
def set (d : Draft) (option : Valued) (value : String) : Option Draft := do
  match option with
  | .output => return { d with output := ← once d.output (← path? value) }
  | .profile => return { d with profile := ← once d.profile (← path? value) }
  | .preset => return { d with preset := ← once d.preset value }
  | .scale => return { d with scale := ← once d.scale (← readFloat? value) }

/-- Sets the flag. -/
def setDebug (d : Draft) : Option Draft := if d.debug then none else some { d with debug := true }

/-- Adds an operand. -/
def addOperand (d : Draft) (s : String) : Option Draft := do
  return { d with job := ← once d.job (← path? s) }

/-- The options: there is a job, and settings are not asked for in two ways. -/
def finish (d : Draft) : Option RenderOptions :=
  match d.job with
  | none => none
  | some job =>
    if d.profile.isSome ∧ d.preset.isSome then none
    else some ⟨job, d.output, d.profile, d.preset, d.scale, d.debug⟩

end Draft

/-- What an argument leads to. -/
inductive Step where
  | done (draft : Draft)
  /-- The next argument is the value of this option. -/
  | wants (option : Valued) (draft : Draft)
  | help

/-- The option with a long name. -/
def Valued.ofName? (name : List Char) : Option Valued :=
  if name = "output".toList then some output
  else if name = "profile".toList then some profile
  else if name = "preset".toList then some preset
  else if name = "scale".toList then some scale
  else none

/-- A name and the value behind an equals sign. -/
def splitValue (cs : List Char) : List Char × Option (List Char) :=
  match cs.span (· != '=') with
  | (name, '=' :: value) => (name, some value)
  | (name, _) => (name, none)

/-- An argument after its two dashes. -/
def readLong (d : Draft) (cs : List Char) : Option Step :=
  let (name, value?) := splitValue cs
  match Valued.ofName? name, value? with
  | some option, some value => (d.set option (String.ofList value)).map .done
  | some option, none => some (.wants option d)
  | none, some _ => none
  | none, none =>
    if name = "debug".toList then d.setDebug.map .done
    else if name = "help".toList then some .help
    else none

/-- An argument after its only dash: letters of flags, and of an option with its value. -/
def readShort (d : Draft) : List Char → Option Step
  | [] => some (.done d)
  | 'd' :: cs => do readShort (← d.setDebug) cs
  | 'h' :: _ => some .help
  | ['o'] => some (.wants .output d)
  | 'o' :: '=' :: cs => (d.set .output (String.ofList cs)).map .done
  | 'o' :: cs => (d.set .output (String.ofList cs)).map .done
  | _ => none

/-- An argument. A dash alone is an operand. -/
def readArgument (d : Draft) (arg : String) : Option Step :=
  match arg.toList with
  | '-' :: '-' :: cs => readLong d cs
  | '-' :: c :: cs => readShort d (c :: cs)
  | _ => (d.addOperand arg).map .done

/-- An argument that is no value: it begins with a dash and goes on. -/
def isOption (arg : String) : Bool := arg.toList.head? == some '-' && arg != "-"

/-- The arguments of `render`. -/
def readRender (d : Draft) : List String → Option Invocation
  | [] => d.finish.map .render
  | "--" :: operands => do return .render (← (← operands.foldlM Draft.addOperand d).finish)
  | [arg] => do
    match ← readArgument d arg with
    | .done d => return .render (← d.finish)
    | .wants .. => none
    | .help => return .help
  | arg :: next :: args => do
    match ← readArgument d arg with
    | .done d => readRender d (next :: args)
    | .wants option d => if isOption next then none else readRender (← d.set option next) args
    | .help => return .help

/-- The arguments of `preset`. -/
def readPreset (name : Option String) : List String → Option Invocation
  | [] => some (.preset name)
  | "--" :: operands => (operands.foldlM once name).map .preset
  | "--help" :: _ => some .help
  | arg :: args =>
    if "-h".toList.isPrefixOf arg.toList then some .help
    else if isOption arg then none
    else do readPreset (← once name arg) args

/-- The arguments of `help`: a command at most. -/
def readHelp : List String → Option Invocation
  | [] => some .help
  | [name] => if name ∈ ["render", "preset", "help"] then some .help else none
  | _ => none

end Arguments

namespace Invocation

/-- The invocation of a list of arguments, absent for a misuse. -/
def ofArguments? : List String → Option Invocation
  | "render" :: args => Arguments.readRender {} args
  | "preset" :: args => Arguments.readPreset none args
  | "help" :: args => Arguments.readHelp args
  | "--help" :: _ => some .help
  | arg :: _ => if "-h".toList.isPrefixOf arg.toList then some .help else none
  | [] => none

/-- A reminder of the arguments. -/
def usage : String :=
  "Usage: penplot render [OPTIONS] <JOB>\n       penplot preset [NAME]\n\n" ++
    "Options of render:\n" ++
    "  -o, --output <OUTPUT>    Output file or device node (default: stdout)\n" ++
    "      --profile <PROFILE>  Plotter profile (TOML), overrides the job's settings\n" ++
    "      --preset <PRESET>    Built-in plotter profile, e.g. hp7475a-a4\n" ++
    "      --scale <SCALE>      Override the profile's scale\n" ++
    "  -d, --debug              Log every statement before it is sent\n"

end Invocation

end HpGl
