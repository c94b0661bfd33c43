import HpGl.Json.Scan
import HpGl.Refusal
import HpGl.Text.Escape

/-!
# Reading JSON into types

A reader takes what was scanned and yields a value of its type or the first fault. Records are read
from an object or from an array of their fields in order. A tagged choice is taken in whole before
it is read, so what it holds is `buffered`; all else is `streamed` as it stands in the text.

* `Json.Fault`, `Json.Fault.message`: what is wrong with a document, and its wording.
* `Json.Reader`: readers of values; `Json.list`, `Json.optional`, `Json.real` and so on.
* `Json.Record`: readers of records, put together field by field.
* `Json.tagged`: readers of choices.
* `Json.read`: a whole text.
-/

namespace HpGl.Json

/-! ## Faults -/

/-- What a message says was found. -/
inductive Found where
  | null
  | boolean (b : Bool)
  | integer (n : Int)
  | real (x : Float)
  | string (s : String)
  | sequence
  | map

/-- The wording of what was found. -/
def Found.phrase : Found → String
  | null => "null"
  | boolean b => "boolean `" ++ (if b then "true" else "false") ++ "`"
  | integer n => "integer `" ++ String.ofList (integerChars n) ++ "`"
  | real x => "floating point `" ++ Layout.json.render x ++ "`"
  | string s => "string " ++ Text.quoted s
  | sequence => "sequence"
  | map => "map"

/-- What is wrong with a document. -/
inductive Fault where
  | missing (field : String)
  | duplicate (field : String)
  | unknownVariant (name : String) (known : List String)
  | invalidType (found : Found) (expected : String)
  | invalidValue (found : Found) (expected : String)
  | invalidLength (length : Nat) (expected : String)
  | refused (cause : Refusal)

/-- A name in back quotes. -/
def backquoted (s : String) : String := "`" ++ s ++ "`"

/-- The wording of a fault. -/
def Fault.message : Fault → String
  | missing f => "missing field " ++ backquoted f
  | duplicate f => "duplicate field " ++ backquoted f
  | unknownVariant n known =>
    "unknown variant " ++ backquoted n ++ ", expected one of " ++
      ", ".intercalate (known.map backquoted)
  | invalidType f e => "invalid type: " ++ f.phrase ++ ", expected " ++ e
  | invalidValue f e => "invalid value: " ++ f.phrase ++ ", expected " ++ e
  | invalidLength n e =>
    "invalid length " ++ String.ofList (Decimal.digitsOf n) ++ ", expected " ++ e
  | refused r => r.message

/-- Why a text is not read. -/
inductive Failure where
  /-- The text is not JSON. -/
  | malformed
  /-- The text is JSON up to a value of the wrong shape. -/
  | unfit (fault : Fault)

/-! ## Readers -/

/-- How a value stands before its reader. -/
inductive Access where
  /-- In the text, with room for this many arrays and objects inside each other. -/
  | streamed (room : Nat)
  /-- Taken in whole before. -/
  | buffered

/-- A result of reading. -/
abbrev Result (α : Type) := Except Failure α

/-- A reader of values. -/
abbrev Reader (α : Type) := Access → Scan → Result α

/-- Fails with a fault of the document. -/
def unfit {α : Type} (f : Fault) : Result α := .error (.unfit f)

/-- Into an array or an object. -/
def Access.enter : Access → Result Access
  | streamed 0 => .error .malformed
  | streamed (room + 1) => .ok (streamed room)
  | buffered => .ok buffered

/-- A value can be passed over: one in the text by its grammar. -/
def Access.skips : Access → Scan → Bool
  | streamed _, s => s.wellFormed
  | buffered, _ => true

/-- A value can be taken in whole. -/
def Access.takes : Access → Scan → Bool
  | streamed room, s => s.readable room
  | buffered, _ => true

/-- What a message says of a value, if it is one. -/
def Scan.found? : Scan → Option Found
  | null => some .null
  | boolean b => some (.boolean b)
  | integer n => some (.integer n)
  | real x => some (.real x)
  | string s => s.map .string
  | array .. => some .sequence
  | object .. => some .map
  | overflow => none
  | malformed => none

/-- A value that is none of those expected. -/
def mismatch {α : Type} (s : Scan) (expected : String) : Result α :=
  match s.found? with
  | some f => unfit (.invalidType f expected)
  | none => .error .malformed

/-- An integer between two bounds. -/
def integerIn (name : String) (lo hi : Int) : Reader Int := fun _ s =>
  match s with
  | .integer n =>
    if lo ≤ n ∧ n ≤ hi then .ok n else unfit (.invalidValue (.integer n) name)
  | s => mismatch s name

/-- A signed integer of 32 bits. -/
def int32 : Reader Int32 := fun a s =>
  (integerIn "i32" (-0x80000000) 0x7FFFFFFF a s).map Int32.ofInt

/-- An unsigned integer of 8 bits. -/
def uint8 : Reader UInt8 := fun a s => (integerIn "u8" 0 255 a s).map fun n => UInt8.ofNat n.toNat

/-- Any number. -/
def real : Reader Float := fun _ s =>
  match s with
  | .integer n => .ok (Float.ofInt n)
  | .real x => .ok x
  | s => mismatch s "f64"

/-- A truth value. -/
def boolean : Reader Bool := fun _ s =>
  match s with
  | .boolean b => .ok b
  | s => mismatch s "a boolean"

/-- A text. -/
def string : Reader String := fun _ s =>
  match s with
  | .string (some t) => .ok t
  | s => mismatch s "a string"

/-- A value that may be `null`. -/
def optional {α : Type} (r : Reader α) : Reader (Option α) := fun a s =>
  match s with
  | .null => .ok none
  | s => (r a s).map some

/-- An array of any length. -/
def list {α : Type} (r : Reader α) : Reader (List α) := fun a s =>
  match s with
  | .array items closed => do
    let a ← a.enter
    let xs ← items.mapM (r a)
    if closed then return xs else throw .malformed
  | s => mismatch s "a sequence"

/-! ## Records -/

/-- A count of elements. -/
def elements (n : Nat) : String :=
  String.ofList (Decimal.digitsOf n) ++ (if n = 1 then " element" else " elements")

/-- A reader of records. -/
structure Record (α : Type) where
  /-- The fields in order, each with the check that its value can be read. -/
  fields : List (String × (Access → Scan → Result Unit))
  /-- The record, from the members of an object. -/
  ofMembers : Access → Members → Result α
  /-- The record, from the items at the head of an array, the first of them for the field with
  this index, and the index and the items that follow it. The first argument words what was
  expected. -/
  ofItems : String → Access → Bool → Nat → List Scan → Result (α × Nat × List Scan)

namespace Record

variable {α β : Type}

/-- A field that may be left out when there is a value for that. -/
def fieldOr (name : String) (default? : Option α) (r : Reader α) : Record α where
  fields := [(name, fun a s => (r a s).map fun _ => ())]
  ofMembers a ms :=
    match ms.lookup (some name), default? with
    | some s, _ => r a s
    | none, some x => .ok x
    | none, none => unfit (.missing name)
  ofItems expected a closed i items :=
    match items, default? with
    | s :: items, _ => do return (← r a s, i + 1, items)
    | [], some x => if closed then .ok (x, i + 1, []) else .error .malformed
    | [], none => if closed then unfit (.invalidLength i expected) else .error .malformed

/-- A field that must be there. -/
def field (name : String) (r : Reader α) : Record α := fieldOr name none r

/-- A field that may be left out or `null`. -/
def optionalField (name : String) (r : Reader α) : Record (Option α) :=
  fieldOr name (some none) (optional r)

/-- The record of no fields. -/
def nothing (x : α) : Record α where
  fields := []
  ofMembers _ _ := .ok x
  ofItems _ _ _ i items := .ok (x, i, items)

/-- One record after another. -/
def andThen (f : Record (α → β)) (x : Unit → Record α) : Record β where
  fields := f.fields ++ (x ()).fields
  ofMembers a ms := do return (← f.ofMembers a ms) (← (x ()).ofMembers a ms)
  ofItems expected a closed i items := do
    let (g, i, items) ← f.ofItems expected a closed i items
    let (x, i, items) ← (x ()).ofItems expected a closed i items
    return (g x, i, items)

instance : Applicative Record where
  pure := nothing
  seq := andThen

variable (r : Record α)

/-- The first fault of the members in the order of the text: a name that is no text, a field that
stands there twice, a field whose value cannot be read, a value that cannot be passed over. -/
def checkMembers (a : Access) : List String → Members → Result Unit
  | _, [] => .ok ()
  | _, (none, _) :: _ => .error .malformed
  | seen, (some k, s) :: ms =>
    match r.fields.lookup k with
    | some check =>
      if k ∈ seen then unfit (.duplicate k)
      else do
        check a s
        checkMembers a (k :: seen) ms
    | none => if a.skips s then checkMembers a seen ms else .error .malformed

/-- The record, from an object. -/
def readMembers (a : Access) (ms : Members) (closed : Bool) : Result α := do
  r.checkMembers a [] ms
  if closed then r.ofMembers a ms else throw .malformed

/-- The record, from an array. Items after the last field are a fault of a text, and of a value
taken in whole a length that does not fit. -/
def readItems (title : String) (a : Access) (items : List Scan) (closed : Bool) : Result α := do
  let expected := title ++ " with " ++ elements r.fields.length
  let (x, i, rest) ← r.ofItems expected a closed 0 items
  match a with
  | .streamed _ => if rest.isEmpty && closed then return x else throw .malformed
  | .buffered =>
    if rest.isEmpty then return x
    else unfit (.invalidLength (i + rest.length) (elements i ++ " in sequence"))

/-- The record, from either. -/
def read (title : String) : Reader α := fun a s =>
  match s with
  | .object ms closed => do r.readMembers (← a.enter) ms closed
  | .array items closed => do r.readItems title (← a.enter) items closed
  | s => mismatch s title

end Record

/-! ## Choices -/

/-- One alternative of a choice: its tag, and how the rest of it is read. -/
structure Variant (α : Type) where
  tag : String
  ofMembers : Members → Result α
  ofItems : List Scan → Result α

namespace Variant

variable {α : Type}

/-- An alternative that holds nothing. Members beside its tag do not matter, items do. -/
def unit (tag : String) (x : α) : Variant α where
  tag := tag
  ofMembers _ := .ok x
  ofItems items :=
    if items.isEmpty then .ok x
    else unfit (.invalidLength items.length (elements 0 ++ " in sequence"))

/-- An alternative that holds a record. -/
def record (tag title : String) (r : Record α) : Variant α where
  tag := tag
  ofMembers ms := r.readMembers .buffered ms true
  ofItems items := r.readItems title .buffered items true

end Variant

section Choice

variable {α : Type} (variants : List (Variant α))

/-- The alternative that a tag names. In a value taken in whole its index names it too. -/
def readTag (a : Access) (s : Scan) : Result (Variant α) :=
  match a, s with
  | _, .string (some t) =>
    match variants.find? (·.tag == t) with
    | some v => .ok v
    | none => unfit (.unknownVariant t (variants.map Variant.tag))
  | .buffered, .integer n =>
    if n < 0 then mismatch s "variant identifier"
    else match variants[n.toNat]? with
      | some v => .ok v
      | none =>
        unfit (.invalidValue (.integer n)
          ("variant index 0 <= i < " ++ String.ofList (Decimal.digitsOf variants.length)))
  | _, s => mismatch s "variant identifier"

/-- The alternative that the members name under `key`, and the other members. -/
def takeTag (key : String) (a : Access) : Option (Variant α) → Members →
    Result (Option (Variant α) × Members)
  | v?, [] => .ok (v?, [])
  | _, (none, _) :: _ => .error .malformed
  | v?, (some k, s) :: ms =>
    if k = key then
      if v?.isSome then unfit (.duplicate key)
      else do takeTag key a (some (← readTag variants a s)) ms
    else if a.takes s then do
      let (v?, rest) ← takeTag key a v? ms
      return (v?, (some k, s) :: rest)
    else .error .malformed

/-- A choice, from an object with a tag among its members or from an array with the tag at its
head. -/
def tagged (key title : String) : Reader α := fun a s =>
  match s with
  | .object ms closed => do
    let (v?, rest) ← takeTag variants key (← a.enter) none ms
    unless closed do throw .malformed
    match v? with
    | some v => v.ofMembers rest
    | none => unfit (.missing key)
  | .array [] closed => do
    discard a.enter
    if closed then unfit (.missing key) else throw .malformed
  | .array (tag :: items) closed => do
    let a ← a.enter
    let v ← readTag variants a tag
    if closed && items.all a.takes then v.ofItems items else throw .malformed
  | s => mismatch s title

end Choice

/-- Arrays and objects may stand this deep inside each other where they are read. -/
def maxDepth : Nat := 127

/-- A whole text. -/
def read {α : Type} (r : Reader α) (text : String) : Result α := do
  let (s, ended) := scan text
  let x ← r (.streamed maxDepth) s
  if ended then return x else throw .malformed

end HpGl.Json
