import HpGl.Config
import HpGl.Toml.Read

/-!
# Profiles

A profile is a TOML document with the settings of a session.

* `Profile.read?`: the settings of a text.
* `Profile.render`: the text of settings.
-/

namespace HpGl.Profile

open Toml (Item Entries)

/-! ## Reading -/

/-- An integer of 32 bits. -/
def int32? : Item → Option Int32
  | .integer n => if -0x80000000 ≤ n ∧ n < 0x80000000 then some (Int32.ofInt n) else none
  | _ => none

/-- A number. -/
def number? : Item → Option Float
  | .integer n => some (Float.ofInt n)
  | .float x => some x
  | _ => none

/-- A truth value. -/
def boolean? : Item → Option Bool
  | .boolean b => some b
  | _ => none

/-- An area: a table, or an array that begins with the four numbers. -/
def bounds? : Item → Option Bounds
  | .table _ es => do
    return ⟨← int32? (← es.lookup "x_min"), ← int32? (← es.lookup "y_min"),
      ← int32? (← es.lookup "x_max"), ← int32? (← es.lookup "y_max")⟩
  | .array (a :: b :: c :: d :: _) => do
    return ⟨← int32? a, ← int32? b, ← int32? c, ← int32? d⟩
  | _ => none

/-- The settings in a table. Other entries are ignored. -/
def ofEntries? (es : Entries) : Option Config := do
  let bounds ← bounds? (← es.lookup "bounds")
  let scale ← number? (← es.lookup "scale")
  let debug ← match es.lookup "debug" with
    | some i => boolean? i
    | none => some false
  return ⟨bounds, scale, debug⟩

/-- The settings of a text. -/
def read? (text : String) : Option Config := (Toml.read? text).bind ofEntries?

/-! ## Writing -/

/-- A line with the value of a key. -/
def assignment (key : String) (value : List Char) : List Char :=
  key.toList ++ ' ' :: '=' :: ' ' :: (value ++ ['\n'])

/-- The text of settings: the settings of the session, then the table of the area. -/
def chars (c : Config) : List Char :=
  assignment "scale" (Layout.toml.chars c.scale) ++
    assignment "debug" (if c.debug then "true".toList else "false".toList) ++
    '\n' :: "[bounds]\n".toList ++
    assignment "x_min" (integerChars c.bounds.xMin.toInt) ++
    assignment "y_min" (integerChars c.bounds.yMin.toInt) ++
    assignment "x_max" (integerChars c.bounds.xMax.toInt) ++
    assignment "y_max" (integerChars c.bounds.yMax.toInt)

@[inherit_doc chars]
def render (c : Config) : String := String.ofList (chars c)

end HpGl.Profile
