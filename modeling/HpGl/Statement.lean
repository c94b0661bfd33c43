import HpGl.Decimal.Layout
import HpGl.Text.Escape

/-!
# Statements

A statement is HP-GL text that must reach the device as one write. It is composed of pieces: an
instruction with its parameters, ended by a semicolon; a label, ended by the ETX character; text
of the caller's.

* `Param`: a number on the wire.
* `Piece`, `Statement.ofPieces`: composing.
* `Statement.instructions`: splitting a text into its instructions.
* `Statement.count`: how often a mnemonic occurs.
-/

namespace HpGl

/-- A number on the wire. -/
inductive Param where
  | real (v : Float)
  | integer (n : Int)
  deriving DecidableEq

/-- The text of a number. Both zeros are `0`. -/
def Param.chars : Param → List Char
  | real v => if v == 0 then ['0'] else Layout.display.chars v
  | integer n => integerChars n

@[inherit_doc Param.chars]
def Param.text (p : Param) : String := String.ofList p.chars

/-- The character that ends an instruction. -/
def terminator : Char := ';'

/-- The character that ends a label. -/
def labelTerminator : Char := '\x03'

/-- What a statement is composed of. -/
inductive Piece where
  /-- A mnemonic and its parameters. -/
  | instruction (mnemonic : String) (params : List Param)
  /-- The text of a label. -/
  | label (text : String)
  /-- Text of the caller's, put in as it is. -/
  | raw (text : String)
  deriving DecidableEq

namespace Piece

/-- An instruction whose parameters are coordinate pairs. -/
def path (mnemonic : String) (points : List (Float × Float)) : Piece :=
  instruction mnemonic (points.flatMap fun (x, y) => [.real x, .real y])

/-- The text of a piece. -/
def chars : Piece → List Char
  | instruction m ps => m.toList ++ [','].intercalate (ps.map Param.chars) ++ [terminator]
  | label t => 'L' :: 'B' :: (t.toList ++ [labelTerminator])
  | raw t => t.toList

end Piece

/-- HP-GL text that is sent in one write. -/
structure Statement where
  text : String
  deriving DecidableEq

namespace Statement

/-- The statement composed of these pieces. -/
def ofPieces (ps : List Piece) : Statement := ⟨String.ofList (ps.flatMap Piece.chars)⟩

/-- The bytes on the wire. -/
def bytes (s : Statement) : List UInt8 := s.text.toUTF8.toList

/-- Number of bytes on the wire. -/
def size (s : Statement) : Nat := s.text.utf8ByteSize

/-- Nothing is sent. -/
def isEmpty (s : Statement) : Bool := s.text.isEmpty

/-- The text with nothing in it that a terminal acts on. -/
def escaped (s : Statement) : String := Text.escaped s.text

/-- The character that ends the instruction at the head of a text. -/
def terminatorAt (cs : List Char) : Char :=
  if ['L', 'B'].isPrefixOf cs then labelTerminator else terminator

/-- The instructions of a text without their terminators. A label runs to its own terminator and
may hold semicolons; the last instruction may lack its terminator. -/
def split (cs : List Char) : List (List Char) :=
  if cs = [] then []
  else
    let t := terminatorAt cs
    cs.takeWhile (· != t) :: split ((cs.dropWhile (· != t)).drop 1)
termination_by cs.length
decreasing_by
  rename_i h
  have hle := (List.dropWhile_suffix (fun c => c != terminatorAt cs) (l := cs)).length_le
  have := List.length_pos_iff.mpr h
  simp only [List.length_drop]
  omega

/-- The instructions of a statement. -/
def instructions (s : Statement) : List String := (split s.text.toList).map String.ofList

/-- How many instructions begin with the mnemonic. -/
def count (s : Statement) (mnemonic : String) : Nat :=
  (split s.text.toList).countP fun i => mnemonic.toList.isPrefixOf i

end Statement

end HpGl
