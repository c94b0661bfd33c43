import HpGl.Statement

/-!
# Building statements

A statement can be built step by step. Each step puts something behind what is there: an
instruction, a label, a statement that was built before, or text of the caller's.

* `Build`: the steps.
* `Build.statement`: what was built.
-/

namespace HpGl

/-- A build: its last step, and the build before that. -/
inductive Build where
  | new
  /-- An instruction without parameters. -/
  | op (before : Build) (mnemonic : String)
  | opWith (before : Build) (mnemonic : String) (params : List Param)
  /-- An instruction at a point. -/
  | opAt (before : Build) (mnemonic : String) (x y : Float)
  /-- An instruction through points, of which there may be none. -/
  | opPath (before : Build) (mnemonic : String) (points : List (Float × Float))
  | label (before : Build) (text : String)
  /-- What another build has built. -/
  | append (before other : Build)
  /-- Text of the caller's, put in as it is. -/
  | raw (before : Build) (text : String)

namespace Build

/-- The text of a build. -/
def chars : Build → List Char
  | new => []
  | op b m => b.chars ++ (Piece.instruction m []).chars
  | opWith b m ps => b.chars ++ (Piece.instruction m ps).chars
  | opAt b m x y => b.chars ++ (Piece.instruction m [.real x, .real y]).chars
  | opPath b m points => b.chars ++ (Piece.path m points).chars
  | label b t => b.chars ++ (Piece.label t).chars
  | append b other => b.chars ++ other.chars
  | raw b t => b.chars ++ (Piece.raw t).chars

/-- What was built. -/
def statement (b : Build) : Statement := ⟨String.ofList b.chars⟩

end Build

end HpGl
