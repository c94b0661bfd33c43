import HpGl.Text.Printable

/-!
# Escaped texts

Quotes, the backslash and the common controls become two characters, any other character that is
not printable its code in hexadecimal digits within braces. A combining character is escaped where
it would join a character that is not its own.

* `escaped`: a statement in a log.
* `quoted`: a text in a message, in double quotes.
-/

namespace HpGl.Text

/-- The hexadecimal code of a character, in the form with braces. -/
def codeEscape (c : Char) : List Char :=
  '\\' :: 'u' :: '\x7b' :: (Nat.toDigits 16 c.toNat ++ ['\x7d'])

/-- The letter that stands for a character after a backslash. -/
def escapeLetter? (c : Char) : Option Char :=
  if c = '\x00' then some '0'
  else if c = '\t' then some 't'
  else if c = '\r' then some 'r'
  else if c = '\n' then some 'n'
  else if c = '\\' ∨ c = '"' ∨ c = '\'' then some c
  else none

/-- A character in a log; with `combining`, combining characters are escaped too. -/
def escapeChar (combining : Bool) (c : Char) : List Char :=
  match escapeLetter? c with
  | some l => ['\\', l]
  | none => if (combining && isCombining c) || !isPrintable c then codeEscape c else [c]

/-- A text in a log. Only its first character has none of its own before it. -/
def escapedChars : List Char → List Char
  | [] => []
  | c :: cs => escapeChar true c ++ cs.flatMap (escapeChar false)

@[inherit_doc escapedChars]
def escaped (s : String) : String := String.ofList (escapedChars s.toList)

/-- A text in double quotes. Single quotes need no escape there, combining characters always do. -/
def quoted (s : String) : String :=
  let inner := s.toList.flatMap fun c => if c = '\'' then [c] else escapeChar true c
  String.ofList ('"' :: (inner ++ ['"']))

end HpGl.Text
