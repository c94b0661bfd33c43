import HpGl.CommandLine.Render

/-!
# The program

Reads the files that a run asks for, opens its output, and hands over what the session sends. The
run itself is `RenderOptions.prepare` and `RenderOptions.plot`, on a sink with the script that the
output turned out to follow.
-/

namespace HpGl.Main

/-- The number of a fault, which the system gives with either sign. -/
def faultNumber (code : UInt32) : Nat := code.toInt32.toInt.natAbs

/-- A fault of the system. -/
def faultOf : IO.Error → SystemFault
  | .noFileOrDirectory .. => .notFound
  | .inappropriateType _ code text =>
    if faultNumber code = 20 then .notDirectory
    else if faultNumber code = 21 then .isDirectory
    else .other text
  | .resourceExhausted _ code text => if faultNumber code = 28 then .noSpace else .other text
  | .invalidArgument _ code text => if faultNumber code = 36 then .nameTooLong else .other text
  | .noSuchThing _ code text => if faultNumber code = 6 then .noDevice else .other text
  | e => .other e.toString

/-- The text of a file. -/
def readText (path : String) : IO (Except SystemFault String) := do
  try
    return Files.textOf (← IO.FS.readBinFile path).toList
  catch e =>
    return .error (faultOf e)

/-- An open output. -/
def openOutput : Option String → IO (Except RunFailure IO.FS.Stream)
  | none => return .ok (← IO.getStdout)
  | some path => do
    try
      return .ok (IO.FS.Stream.ofHandle (← IO.FS.Handle.mk path .write))
    catch e =>
      return .error (.unopened path (faultOf e))

/-- Hands over the bytes of write calls one by one, until one of them fails after so many. Yields
the script that the output followed. -/
def handOver (out : IO.FS.Stream) : Nat → List WriteCall → IO Script
  | _, [] => return .accepting
  | n, c :: cs => do
    try
      out.write ⟨c.offered.toArray⟩
      out.flush
    catch e =>
      return .failingAfter n (.system (faultOf e))
    handOver out (n + 1) cs

/-- Prints the log and the ending of a run, and yields its exit code. -/
def conclude (ending : Ending) (log : List LogEntry) : IO UInt32 := do
  for e in log do
    IO.eprintln ("[" ++ e.line)
  match ending with
  | .success => pure ()
  | .failed f => IO.eprintln f.text
  | .overflow => IO.eprintln "Error: 32 bits do not hold the size of the device area"
  return ending.code.toUInt32

/-- A run of `render`. -/
def render (o : RenderOptions) : IO UInt32 := do
  let texts ← (o.job :: o.profile.toList).mapM fun p => do return (p, ← readText p)
  match o.prepare fun p => (texts.lookup p).getD (.error .notFound) with
  | .error f => conclude (.failed f) []
  | .ok (job, c) =>
    match ← openOutput o.output with
    | .error f => conclude (.failed f) []
    | .ok out =>
      let script ← handOver out 0 (o.plot job c Script.accepting.sink).writes
      let run := o.plot job c script.sink
      conclude run.ending run.log

/-- A run of the program. -/
def run : Option Invocation → IO UInt32
  | none => do
    IO.eprint Invocation.usage
    return 2
  | some .help => do
    IO.print Invocation.usage
    return 0
  | some (.preset name) => do
    match showPreset name with
    | .ok text =>
      IO.print text
      return 0
    | .error f => conclude (.failed f) []
  | some (.render o) => render o

end HpGl.Main

def main (args : List String) : IO UInt32 := HpGl.Main.run (HpGl.Invocation.ofArguments? args)
