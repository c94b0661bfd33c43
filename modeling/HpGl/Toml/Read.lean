import HpGl.Toml.Number

/-!
# Reading TOML

A document is a list of lines: headers and assignments. Each scanner yields what it read and the
text after it.

* `Toml.scanKey`: keys, bare or in quotes, with dots between them.
* `Toml.scanValue`: values.
* `Toml.scanLines`: the lines of a document.
* `Toml.read?`: the table of a text.
-/

namespace HpGl.Toml

/-! ## Blanks and line ends -/

/-- A blank within a line. -/
def isBlank (c : Char) : Bool := c = ' ' || c = '\t'

/-- A character that may stand in a comment or in a string: no control character but the tab. -/
def isText (c : Char) : Bool := c = '\t' || (0x20 ≤ c.toNat && c.toNat != 0x7f)

/-- The text after its leading blanks. -/
def skipBlanks (cs : List Char) : List Char := cs.dropWhile isBlank

/-- The text after a line break. -/
def skipBreak? : List Char → Option (List Char)
  | '\n' :: cs => some cs
  | '\r' :: '\n' :: cs => some cs
  | _ => none

/-- The text after the end of a line: blanks, a comment if there is one, and a line break or the
end of the text. -/
def skipLineEnd? (cs : List Char) : Option (List Char) :=
  let cs := match skipBlanks cs with
    | '#' :: cs => cs.dropWhile isText
    | cs => cs
  if cs = [] then some [] else skipBreak? cs

/-- The text after blanks, line breaks and comments. -/
def skipSpace (inComment : Bool) : List Char → List Char
  | [] => []
  | '\n' :: cs => skipSpace false cs
  | '\r' :: '\n' :: cs => skipSpace false cs
  | c :: cs =>
    if inComment then (if isText c then skipSpace true cs else c :: cs)
    else if isBlank c then skipSpace false cs
    else if c = '#' then skipSpace true cs
    else c :: cs

/-! ## Strings and keys -/

/-- The character with this number, surrogates being none. -/
def char? (n : Nat) : Option Char := if h : n.isValidChar then some (Char.ofNatAux n h) else none

/-- The character that a letter after a backslash stands for. -/
def unescape? (c : Char) : Option Char :=
  match c with
  | '"' => some '"'
  | '\\' => some '\\'
  | 'b' => some '\x08'
  | 'f' => some '\x0c'
  | 'n' => some '\n'
  | 'r' => some '\r'
  | 't' => some '\t'
  | _ => none

/-- The character of an escape after its backslash, and the text after it. -/
def scanEscape : List Char → Option (Char × List Char)
  | 'u' :: a :: b :: c :: d :: cs => do
    return (← char? (← Text.hexNumber? [a, b, c, d]), cs)
  | 'U' :: a :: b :: c :: d :: e :: f :: g :: h :: cs => do
    return (← char? (← Text.hexNumber? [a, b, c, d, e, f, g, h]), cs)
  | c :: cs => (unescape? c).map (·, cs)
  | [] => none

/-- A string in double quotes, after the first. -/
def scanQuoted : Nat → List Char → Option (List Char × List Char)
  | 0, _ => none
  | _ + 1, [] => none
  | fuel + 1, c :: cs =>
    if c = '"' then some ([], cs)
    else if c = '\\' then do
      let (c, cs) ← scanEscape cs
      let (t, rest) ← scanQuoted fuel cs
      return (c :: t, rest)
    else if isText c then (scanQuoted fuel cs).map fun (t, rest) => (c :: t, rest)
    else none

/-- A string in single quotes, after the first. Nothing in it is escaped. -/
def scanLiteral (cs : List Char) : Option (List Char × List Char) :=
  match cs.span fun c => isText c && c != '\'' with
  | (t, '\'' :: rest) => some (t, rest)
  | _ => none

/-- A backslash at the end of a line, with nothing but blanks after it. -/
def skipJoin? (cs : List Char) : Option (List Char) := skipBreak? (skipBlanks cs)

/-- The text after a string of several lines, from after its three opening quotes. Up to two
quotes may stand before the three that close it. -/
def skipBlock (quote : Char) : Nat → List Char → Option (List Char)
  | 0, _ => none
  | _ + 1, [] => none
  | fuel + 1, c :: cs =>
    let quotes := ((c :: cs).takeWhile (· = quote)).length
    if 3 ≤ quotes then some ((c :: cs).drop (min 5 quotes))
    else if c = '\\' ∧ quote = '"' then
      match skipJoin? cs with
      | some cs => skipBlock quote fuel cs
      | none => do
        let (_, cs) ← scanEscape cs
        skipBlock quote fuel cs
    else if isText c then skipBlock quote fuel cs
    else do skipBlock quote fuel (← skipBreak? (c :: cs))

/-- The text after a string. -/
def skipString? (cs : List Char) : Option (List Char) :=
  match cs with
  | '"' :: '"' :: '"' :: cs => skipBlock '"' (cs.length + 1) cs
  | '\'' :: '\'' :: '\'' :: cs => skipBlock '\'' (cs.length + 1) cs
  | '"' :: cs => (scanQuoted (cs.length + 1) cs).map Prod.snd
  | '\'' :: cs => (scanLiteral cs).map Prod.snd
  | _ => none

/-- A character of a bare key. -/
def isBareKey (c : Char) : Bool := c.isAlphanum || c = '_' || c = '-'

/-- One key without dots. -/
def scanSimpleKey (cs : List Char) : Option (String × List Char) :=
  match cs with
  | '"' :: cs => (scanQuoted (cs.length + 1) cs).map fun (t, rest) => (String.ofList t, rest)
  | '\'' :: cs => (scanLiteral cs).map fun (t, rest) => (String.ofList t, rest)
  | cs =>
    let (t, rest) := cs.span isBareKey
    if t = [] then none else some (String.ofList t, rest)

/-- A key of at most so many parts, with dots between them, and the blanks after it. -/
def scanKeyUpTo : Nat → List Char → Option (Key × List Char)
  | 0, _ => none
  | parts + 1, cs => do
    let (k, cs) ← scanSimpleKey (skipBlanks cs)
    match skipBlanks cs with
    | '.' :: cs =>
      let (key, rest) ← scanKeyUpTo parts cs
      return (⟨k :: key.path, key.last⟩, rest)
    | rest => return (⟨[], k⟩, rest)

/-- Keys have fewer parts than this, and values are nested less deep. -/
def limit : Nat := 80

/-- A key, and the text after the blanks behind it. -/
def scanKey (cs : List Char) : Option (Key × List Char) := scanKeyUpTo (limit - 1) cs

/-! ## Values -/

/-- A value that holds no other. -/
def scanScalar (cs : List Char) : Option (Item × List Char) :=
  match cs with
  | '"' :: _ => (skipString? cs).map (Item.text, ·)
  | '\'' :: _ => (skipString? cs).map (Item.text, ·)
  | 't' :: 'r' :: 'u' :: 'e' :: cs => some (.boolean true, cs)
  | 'f' :: 'a' :: 'l' :: 's' :: 'e' :: cs => some (.boolean false, cs)
  | cs => scanNumeral cs

mutual

/-- A value, with room for so many arrays and tables inside each other. -/
def scanValue : Nat → Nat → List Char → Option (Item × List Char)
  | 0, _, _ => none
  | fuel + 1, room, cs =>
    match cs with
    | '[' :: cs =>
      if room = 0 then none
      else (scanItems fuel (room - 1) cs).map fun (items, rest) => (.array items, rest)
    | '\x7b' :: cs =>
      if room = 0 then none
      else match skipBlanks cs with
        | '\x7d' :: rest => some (.table .inline [], rest)
        | cs => do
          let (pairs, rest) ← scanPairs fuel (room - 1) cs
          return (.table .inline (← ofPairs? pairs), rest)
    | cs => scanScalar cs

/-- The items of an array up to its bracket. They may stand on several lines, and a comma may
follow the last. -/
def scanItems : Nat → Nat → List Char → Option (List Item × List Char)
  | 0, _, _ => none
  | fuel + 1, room, cs =>
    match skipSpace false cs with
    | ']' :: rest => some ([], rest)
    | cs => do
      let (i, cs) ← scanValue fuel room cs
      match skipSpace false cs with
      | ',' :: cs =>
        let (items, rest) ← scanItems fuel room cs
        return (i :: items, rest)
      | ']' :: rest => return ([i], rest)
      | _ => none

/-- The assignments between braces, at least one, up to the closing one. They stand on one line,
and no comma follows the last. -/
def scanPairs : Nat → Nat → List Char → Option (List (Key × Item) × List Char)
  | 0, _, _ => none
  | fuel + 1, room, cs => do
    let (k, cs) ← scanKey cs
    let (i, cs) ← scanValue fuel room (skipBlanks (← skip? '=' cs))
    match skipBlanks cs with
    | ',' :: cs =>
      let (pairs, rest) ← scanPairs fuel room cs
      return ((k, i) :: pairs, rest)
    | '\x7d' :: rest => return ([(k, i)], rest)
    | _ => none

end

/-! ## Lines -/

/-- The text after the end of a header. -/
def skipHeaderEnd? (brackets : List Char) (cs : List Char) : Option (List Char) :=
  if brackets.isPrefixOf cs then skipLineEnd? (cs.drop brackets.length) else none

/-- A line. Each step of the scan of a value takes a character, and at most two steps take none. -/
def scanLine (cs : List Char) : Option (Line × List Char) :=
  match skipLineEnd? cs with
  | some rest => some (.blank, rest)
  | none =>
    match skipBlanks cs with
    | '[' :: '[' :: cs => do
      let (k, cs) ← scanKey cs
      return (.element k, ← skipHeaderEnd? [']', ']'] cs)
    | '[' :: cs => do
      let (k, cs) ← scanKey cs
      return (.table k, ← skipHeaderEnd? [']'] cs)
    | cs => do
      let (k, cs) ← scanKey cs
      let cs := skipBlanks (← skip? '=' cs)
      let (i, cs) ← scanValue (2 * cs.length + 2) (limit - 1) cs
      return (.assign k i, ← skipLineEnd? cs)

/-- The lines of a text. Each takes a character at least. -/
def scanLinesUpTo : Nat → List Char → Option (List Line)
  | _, [] => some []
  | 0, _ :: _ => none
  | fuel + 1, c :: cs => do
    let (l, rest) ← scanLine (c :: cs)
    return l :: (← scanLinesUpTo fuel rest)

/-- The lines of a text. A byte order mark may precede them. -/
def scanLines (text : String) : Option (List Line) :=
  let cs := match text.toList with
    | '\ufeff' :: cs => cs
    | cs => cs
  scanLinesUpTo cs.length cs

/-- The table of a text, absent if it is not TOML. -/
def read? (text : String) : Option Entries := (scanLines text).bind build?

end HpGl.Toml
