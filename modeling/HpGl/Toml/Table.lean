/-!
# Tables

The values of a TOML document, and the rules by which its lines build one table. A table may be
extended only in the way in which it came to be: under a header once, through dotted keys, not at
all when it stands between braces.

* `Toml.Item`, `Toml.Entries`: values and tables.
* `Toml.atHeader`, `Toml.atDotted`: the two ways to a table inside a table.
* `Toml.Line`, `Toml.build?`: the table of a document.
-/

namespace HpGl.Toml

/-- How a table came to be. -/
inductive Origin where
  /-- Under its own header. -/
  | header
  /-- On the way of a header to a table inside it. -/
  | implied
  /-- Through dotted keys. -/
  | dotted
  /-- Between braces. -/
  | inline
  deriving DecidableEq, Repr

/-- A value. -/
inductive Item where
  /-- A string. No setting is one, so what it says is not kept. -/
  | text
  /-- A date, a time or both. No setting is one, so which one it is is not kept. -/
  | time
  | boolean (b : Bool)
  | integer (n : Int)
  | float (x : Float)
  | array (items : List Item)
  | table (origin : Origin) (entries : List (String × Item))
  /-- Several tables under one header. Only the latest can still be extended. -/
  | tables (latest : List (String × Item))

/-- The entries of a table. -/
abbrev Entries := List (String × Item)

/-- Changes the value of a key, or adds one at the end. -/
def alter (key : String) (f : Option Item → Option Item) : Entries → Option Entries
  | [] => (f none).map fun i => [(key, i)]
  | (k, i) :: es =>
    if k = key then (f (some i)).map fun i => (k, i) :: es
    else (alter key f es).map ((k, i) :: ·)

/-- Adds the value of a key that has none. -/
def insertNew (key : String) (i : Item) : Entries → Option Entries :=
  alter key fun
    | none => some i
    | some _ => none

/-- Changes the table at the end of a path of headers. -/
def atHeader : List String → (Entries → Option Entries) → Entries → Option Entries
  | [], f, es => f es
  | key :: path, f, es =>
    es |> alter key fun
      | none => (atHeader path f []).map (.table .implied)
      | some (.table .inline _) => none
      | some (.table origin es) => (atHeader path f es).map (.table origin)
      | some (.tables latest) => (atHeader path f latest).map .tables
      | some _ => none

/-- Changes the table at the end of a path of dotted keys. A table with a header of its own is
closed to them; one that a header implied is open on the way, but not at the end. -/
def atDotted : List String → (Entries → Option Entries) → Entries → Option Entries
  | [], f, es => f es
  | key :: path, f, es =>
    es |> alter key fun
      | none => (atDotted path f []).map (.table .dotted)
      | some (.table .dotted es) => (atDotted path f es).map (.table .dotted)
      | some (.table .implied es) =>
        if path = [] then none else (atDotted path f es).map (.table .implied)
      | some (.tables latest) => if path = [] then none else (atDotted path f latest).map .tables
      | some _ => none

/-- A key: the keys on its way and the last one. -/
structure Key where
  path : List String
  last : String
  deriving DecidableEq, Repr

/-- Gives a key its value. -/
def Key.assign (k : Key) (i : Item) : Entries → Option Entries :=
  atDotted k.path (insertNew k.last i)

/-- Opens the table under a header. -/
def Key.openTable (k : Key) : Entries → Option Entries :=
  atHeader k.path <| alter k.last fun
    | none => some (.table .header [])
    | some (.table .implied es) => some (.table .header es)
    | some _ => none

/-- Opens one more table under a header. -/
def Key.openElement (k : Key) : Entries → Option Entries :=
  atHeader k.path <| alter k.last fun
    | none => some (.tables [])
    | some (.tables _) => some (.tables [])
    | some _ => none

/-- The table of assignments alone. -/
def ofPairs? (pairs : List (Key × Item)) : Option Entries :=
  pairs.foldlM (fun es (k, i) => k.assign i es) []

/-- A line of a document. -/
inductive Line where
  | blank
  | table (header : Key)
  | element (header : Key)
  | assign (key : Key) (value : Item)

/-- One line: the path of the header that is in force, and the table of the document. -/
def step : List String × Entries → Line → Option (List String × Entries)
  | (path, es), .blank => some (path, es)
  | (_, es), .table k => (k.openTable es).map (k.path ++ [k.last], ·)
  | (_, es), .element k => (k.openElement es).map (k.path ++ [k.last], ·)
  | (path, es), .assign k i => (atHeader path (k.assign i) es).map (path, ·)

/-- The table of a document. -/
def build? (lines : List Line) : Option Entries := (lines.foldlM step ([], [])).map Prod.snd

end HpGl.Toml
