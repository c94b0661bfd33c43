import HpGl.Decimal.Layout

/-!
# JSON documents

The values of a document that is written, and their text: no blanks, members in the order of the
value, `null` for a number that JSON cannot hold.

* `Json.Value`: the values.
* `Json.Value.chars`: their text.
-/

namespace HpGl.Json

/-- A JSON value. Whole numbers and doubles are told apart, as their texts are. -/
inductive Value where
  | null
  | boolean (b : Bool)
  | integer (n : Int)
  | real (x : Float)
  | string (s : String)
  | array (items : List Value)
  | object (members : List (String × Value))

/-- The letter that stands for a character after a backslash. -/
def escapeLetter? (c : Char) : Option Char :=
  if c = '"' ∨ c = '\\' then some c
  else if c = '\x08' then some 'b'
  else if c = '\x0c' then some 'f'
  else if c = '\n' then some 'n'
  else if c = '\r' then some 'r'
  else if c = '\t' then some 't'
  else none

/-- A character of a string. Below the space every character is escaped, from the space on only
the quote and the backslash. -/
def escapeChar (c : Char) : List Char :=
  match escapeLetter? c with
  | some l => ['\\', l]
  | none =>
    if c.toNat < 0x20 then
      ['\\', 'u', '0', '0', Nat.digitChar (c.toNat / 16), Nat.digitChar (c.toNat % 16)]
    else [c]

/-- A string between its quotes. -/
def stringChars (s : String) : List Char := '"' :: (s.toList.flatMap escapeChar ++ ['"'])

/-- Texts with commas between them. -/
def commas (texts : List (List Char)) : List Char := [','].intercalate texts

namespace Value

mutual

/-- The text of a value. -/
def chars : Value → List Char
  | null => "null".toList
  | boolean true => "true".toList
  | boolean false => "false".toList
  | integer n => integerChars n
  | real x => if x.isFinite then Layout.json.chars x else "null".toList
  | string s => stringChars s
  | array items => '[' :: (commas (itemChars items) ++ [']'])
  | object members => '\x7b' :: (commas (memberChars members) ++ ['\x7d'])

/-- The texts of the items of an array. -/
def itemChars : List Value → List (List Char)
  | [] => []
  | v :: vs => v.chars :: itemChars vs

/-- The texts of the members of an object. -/
def memberChars : List (String × Value) → List (List Char)
  | [] => []
  | (k, v) :: ms => (stringChars k ++ ':' :: v.chars) :: memberChars ms

end

@[inherit_doc chars]
def render (v : Value) : String := String.ofList v.chars

end Value

end HpGl.Json
