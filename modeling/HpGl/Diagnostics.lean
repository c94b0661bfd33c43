import HpGl.Refusal
import HpGl.Statement

/-!
# What a session reports

A session reports the calls it refuses and, when its settings say so, each statement before it is
sent. A report can be kept as it is or written to a log, one entry for each.

* `Event`: the reports.
* `Event.logEntry`: the entry of a report, free of control characters.
-/

namespace HpGl

/-- A report of a session. -/
inductive Event where
  /-- A statement is about to be sent. -/
  | statement (s : Statement)
  /-- A call was refused and nothing is sent. -/
  | rejected (operation : String) (cause : Refusal)
  deriving DecidableEq

/-- How much an entry of a log matters. -/
inductive LogLevel where
  | warn
  | info
  | debug
  deriving DecidableEq, Repr

namespace LogLevel

/-- The name of a level. -/
def name : LogLevel → String
  | warn => "WARN"
  | info => "INFO"
  | debug => "DEBUG"

/-- A rank that grows with the detail. -/
def rank : LogLevel → Nat
  | warn => 0
  | info => 1
  | debug => 2

/-- A log at one level shows entries of this level. -/
def shows (atLevel level : LogLevel) : Bool := decide (level.rank ≤ atLevel.rank)

end LogLevel

/-- An entry of a log. -/
structure LogEntry where
  level : LogLevel
  /-- The part of the program that speaks. -/
  source : String
  text : String
  deriving DecidableEq, Repr

/-- An entry as a line: the level in a column of five, the source, the text. -/
def LogEntry.line (e : LogEntry) : String :=
  pad 5 e.level.name ++ " " ++ e.source ++ "] " ++ e.text
where
  /-- Blanks up to a width. -/
  pad (n : Nat) (s : String) : String :=
    s ++ String.ofList (List.replicate (n - s.length) ' ')

/-- The entry of a report: statements in detail, with control characters escaped, and refusals as
warnings. -/
def Event.logEntry (e : Event) : LogEntry :=
  match e with
  | statement s => ⟨.debug, source, "hpgl: " ++ s.escaped⟩
  | rejected op cause => ⟨.warn, source, op ++ ": " ++ cause.message ++ "; nothing sent"⟩
where
  /-- The name under which sessions log. -/
  source : String := "penplot_hpgl::diagnostics"

/-- A report as a pair of names, if it is a refusal. -/
def Event.rejection? : Event → Option (String × String)
  | statement _ => none
  | rejected op cause => some (op, cause.message)

end HpGl
