import HpGl.Json.Number
import HpGl.Text.Hexadecimal

/-!
# Scanning JSON

A text is scanned as far as it is JSON. The result keeps the values up to the first fault, so that
a reader which takes them in order meets the faults of the document and those of the text in the
order in which they stand there.

* `Json.Scan`: what was scanned. An array or object that is not `closed` ends in a fault.
* `Json.Scan.wellFormed`: the text of a value is JSON.
* `Json.Scan.readable`: moreover its numbers are doubles, its strings are texts, and it is nested
  no deeper than a limit.
* `Json.scan`: a whole text.
-/

namespace HpGl.Json

/-- What was scanned of a text. -/
inductive Scan where
  | null
  | boolean (b : Bool)
  /-- A literal without fraction and exponent that 64 bits hold, signed or not. -/
  | integer (n : Int)
  | real (x : Float)
  /-- A number beyond the doubles. -/
  | overflow
  /-- A string; absent when an escape names half of a surrogate pair. -/
  | string (s : Option String)
  | array (items : List Scan) (closed : Bool)
  | object (members : List (Option String × Scan)) (closed : Bool)
  /-- No value stands here. -/
  | malformed

/-- The members of an object, with their names if those are texts. -/
abbrev Members := List (Option String × Scan)

namespace Scan

mutual

/-- The text of the value is JSON. -/
def wellFormed : Scan → Bool
  | malformed => false
  | array items closed => closed && itemsWellFormed items
  | object members closed => closed && membersWellFormed members
  | _ => true

/-- The texts of the items are JSON. -/
def itemsWellFormed : List Scan → Bool
  | [] => true
  | s :: ss => s.wellFormed && itemsWellFormed ss

/-- The texts of the members are JSON. -/
def membersWellFormed : Members → Bool
  | [] => true
  | (_, s) :: ms => s.wellFormed && membersWellFormed ms

end

mutual

/-- The value can be read, with room for this many arrays and objects inside each other. -/
def readable : Nat → Scan → Bool
  | _, malformed => false
  | _, overflow => false
  | _, string s => s.isSome
  | room, array items closed => 0 < room && closed && itemsReadable (room - 1) items
  | room, object members closed => 0 < room && closed && membersReadable (room - 1) members
  | _, _ => true

/-- The items can be read. -/
def itemsReadable : Nat → List Scan → Bool
  | _, [] => true
  | room, s :: ss => readable room s && itemsReadable room ss

/-- The members can be read, names included. -/
def membersReadable : Nat → Members → Bool
  | _, [] => true
  | room, (k, s) :: ms => k.isSome && readable room s && membersReadable room ms

end

end Scan

/-! ## Tokens -/

/-- The text after its leading blanks. -/
def skipBlanks (cs : List Char) : List Char :=
  cs.dropWhile fun c => c = ' ' || c = '\n' || c = '\t' || c = '\r'

/-- The character that a letter after a backslash stands for. -/
def unescape? (c : Char) : Option Char :=
  match c with
  | '"' => some '"'
  | '\\' => some '\\'
  | '/' => some '/'
  | 'b' => some '\x08'
  | 'f' => some '\x0c'
  | 'n' => some '\n'
  | 'r' => some '\r'
  | 't' => some '\t'
  | _ => none

/-- The code units of a string after its opening quote, and the text after its closing one. Only
an escape yields a surrogate. -/
def scanUnits : List Char → Option (List Nat × List Char)
  | [] => none
  | '"' :: cs => some ([], cs)
  | '\\' :: 'u' :: a :: b :: c :: d :: cs => do
    let unit ← Text.hexNumber? [a, b, c, d]
    let (us, rest) ← scanUnits cs
    return (unit :: us, rest)
  | '\\' :: e :: cs => do
    let c ← unescape? e
    let (us, rest) ← scanUnits cs
    return (c.toNat :: us, rest)
  | c :: cs =>
    if c = '\\' ∨ c.toNat < 0x20 then none
    else (scanUnits cs).map fun (us, rest) => (c.toNat :: us, rest)

/-- The text of code units; a surrogate without its partner has none. -/
def textOfUnits? : List Nat → Option (List Char)
  | [] => some []
  | u :: us =>
    if 0xDC00 ≤ u ∧ u ≤ 0xDFFF then none
    else if 0xD800 ≤ u ∧ u ≤ 0xDBFF then
      match us with
      | [] => none
      | v :: us =>
        if 0xDC00 ≤ v ∧ v ≤ 0xDFFF then
          (textOfUnits? us).map (Char.ofNat (0x10000 + (u - 0xD800) * 0x400 + (v - 0xDC00)) :: ·)
        else none
    else (textOfUnits? us).map (Char.ofNat u :: ·)

/-- A string after its opening quote. -/
def scanString (cs : List Char) : Option (Option String × List Char) :=
  (scanUnits cs).map fun (us, rest) => ((textOfUnits? us).map String.ofList, rest)

/-- A double, unless the decimal is beyond them. -/
def Scan.ofDecimal (negative : Bool) (d : Decimal) : Scan :=
  let x := scaled d
  if x.isFinite then .real (if negative then -x else x) else .overflow

/-- A literal of digits alone. Negative zero is a double, as is what 64 bits do not hold. -/
def Scan.ofDigits (negative : Bool) (ds : List Char) : Scan :=
  let n := Decimal.valueOf ds
  if negative then
    if n = 0 ∨ 0x8000000000000000 < n then .ofDecimal true (cutDecimal ds [] 0) else .integer (-n)
  else if n < 0x10000000000000000 then .integer n
  else .ofDecimal false (cutDecimal ds [] 0)

/-- The exponent of a number, if one stands here; absent when it breaks off. -/
def scanExponent (cs : List Char) : Option (Option Int × List Char) :=
  match cs with
  | [] => some (none, [])
  | c :: cs' =>
    if c = 'e' ∨ c = 'E' then
      let (negative, cs') := takeSign cs'
      let (ds, rest) := takeDigits cs'
      if ds = [] then none
      else
        let n : Int := Decimal.valueOf ds
        some (some (if negative then -n else n), rest)
    else some (none, cs)

/-- The fraction of a number, if one stands here; absent when it breaks off. -/
def scanFraction (cs : List Char) : Option (Option (List Char) × List Char) :=
  match cs with
  | '.' :: cs =>
    let (ds, rest) := takeDigits cs
    if ds = [] then none else some (some ds, rest)
  | cs => some (none, cs)

/-- A number. Its integer part has no superfluous zero. -/
def scanNumber (cs : List Char) : Option (Scan × List Char) := do
  let (negative, cs) := match cs with
    | '-' :: cs => (true, cs)
    | cs => (false, cs)
  let (whole, cs) := takeDigits cs
  if whole = [] ∨ (whole.head? = some '0' ∧ whole ≠ ['0']) then none
  let (fraction, cs) ← scanFraction cs
  let (exponent, cs) ← scanExponent cs
  if fraction = none ∧ exponent = none then return (.ofDigits negative whole, cs)
  return (.ofDecimal negative (cutDecimal whole (fraction.getD []) (exponent.getD 0)), cs)

/-! ## Values -/

mutual

/-- A value, and the text after it if that can be scanned on. -/
def scanValue : Nat → List Char → Scan × Option (List Char)
  | 0, _ => (.malformed, none)
  | fuel + 1, cs =>
    match skipBlanks cs with
    | 'n' :: 'u' :: 'l' :: 'l' :: cs => (.null, some cs)
    | 't' :: 'r' :: 'u' :: 'e' :: cs => (.boolean true, some cs)
    | 'f' :: 'a' :: 'l' :: 's' :: 'e' :: cs => (.boolean false, some cs)
    | '"' :: cs =>
      match scanString cs with
      | some (s, cs) => (.string s, some cs)
      | none => (.malformed, none)
    | '[' :: cs =>
      match skipBlanks cs with
      | ']' :: cs => (.array [] true, some cs)
      | cs =>
        let (items, rest) := scanItems fuel cs
        (.array items rest.isSome, rest)
    | '\x7b' :: cs =>
      match skipBlanks cs with
      | '\x7d' :: cs => (.object [] true, some cs)
      | cs =>
        let (members, rest) := scanMembers fuel cs
        (.object members rest.isSome, rest)
    | cs =>
      match scanNumber cs with
      | some (s, cs) => (s, some cs)
      | none => (.malformed, none)

/-- The items of an array, at least one, and the text after its bracket. -/
def scanItems : Nat → List Char → List Scan × Option (List Char)
  | 0, _ => ([], none)
  | fuel + 1, cs =>
    match scanValue fuel cs with
    | (s, none) => ([s], none)
    | (s, some cs) =>
      match skipBlanks cs with
      | ',' :: cs =>
        let (items, rest) := scanItems fuel cs
        (s :: items, rest)
      | ']' :: cs => ([s], some cs)
      | _ => ([s], none)

/-- The members of an object, at least one, and the text after its brace. -/
def scanMembers : Nat → List Char → Members × Option (List Char)
  | 0, _ => ([], none)
  | fuel + 1, cs =>
    match skipBlanks cs with
    | '"' :: cs =>
      match scanString cs with
      | none => ([], none)
      | some (k, cs) =>
        match skipBlanks cs with
        | ':' :: cs =>
          match scanValue fuel cs with
          | (s, none) => ([(k, s)], none)
          | (s, some cs) =>
            match skipBlanks cs with
            | ',' :: cs =>
              let (members, rest) := scanMembers fuel cs
              ((k, s) :: members, rest)
            | '\x7d' :: cs => ([(k, s)], some cs)
            | _ => ([(k, s)], none)
        | _ => ([(k, .malformed)], none)
    | _ => ([], none)

end

/-- The value of a text, and whether nothing but blanks follows it. Each step of the scan takes a
character, and at most two steps take none. -/
def scan (text : String) : Scan × Bool :=
  let cs := text.toList
  match scanValue (2 * cs.length + 2) cs with
  | (s, none) => (s, false)
  | (s, some rest) => (s, skipBlanks rest = [])

end HpGl.Json
