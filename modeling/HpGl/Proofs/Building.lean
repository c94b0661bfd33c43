import HpGl.Builder
import HpGl.Proofs.Splitting

/-!
# Splitting what was built

A build that holds no text of the caller's is split into one entry for each of its steps, whatever
its labels say and however deep builds were put into each other. Statements that follow each other
on the wire do not run into each other either.

* `Build.steps`: the steps of a build, those of a build put into it in their place.
* `Piece.entry`, `Piece.mnemonic`: what a step is split into, and what it is counted under.
* `instructions_ofPieces`, `count_ofPieces`: one entry for each step, counted under its mnemonic.
* **`builds_split`**: builds, and what was built one after the other.
-/

namespace HpGl

/-! ## Steps -/

namespace Piece

/-- What a step is split into: the mnemonic with its parameters, or the label with its text. -/
def entry : Piece → String
  | instruction m ps => m ++ ",".intercalate (ps.map Param.text)
  | label t => "LB" ++ t
  | raw t => t

/-- The mnemonic of a step. -/
def mnemonic : Piece → String
  | instruction m _ => m
  | label _ => "LB"
  | raw t => t

instance : DecidablePred Piece.Closed
  | instruction m _ =>
    inferInstanceAs (Decidable (terminator ∉ m.toList ∧ ¬ ['L', 'B'] <+: m.toList))
  | label t => inferInstanceAs (Decidable (labelTerminator ∉ t.toList))
  | raw _ => inferInstanceAs (Decidable False)

theorem toList_entry (p : Piece) : p.entry.toList = p.text := by
  cases p with
  | instruction m ps =>
    have hps : (ps.map Param.text).map String.toList = ps.map Param.chars := by
      simp [Param.text]
    simp only [entry, text, Param.list, String.toList_append, String.toList_intercalate, hps]
    rfl
  | label t => simp [entry, text]
  | raw t => rfl

theorem mnemonic_prefix_text (p : Piece) : p.mnemonic.toList <+: p.text := by
  cases p with
  | instruction m ps => exact List.prefix_append _ _
  | label t => exact ⟨t.toList, by simp [mnemonic, text]⟩
  | raw t => exact List.prefix_rfl

theorem isPrefixOf_text {p : Piece} {m : String} (h : m.length = p.mnemonic.length) :
    m.toList.isPrefixOf p.text = decide (p.mnemonic = m) := by
  have hown := mnemonic_prefix_text p
  have hlength : m.toList.length = p.mnemonic.toList.length := by
    rw [String.length_toList, String.length_toList, h]
  rw [Bool.eq_iff_iff, List.isPrefixOf_iff_prefix, decide_eq_true_eq]
  constructor
  · intro hm
    have heq := (List.prefix_of_prefix_length_le hm hown hlength.le).eq_of_length hlength
    exact String.toList_inj.mp heq.symm
  · rintro rfl
    exact hown

end Piece

namespace Build

/-- The steps of a build in their order. -/
def steps : Build → List Piece
  | new => []
  | op b m => b.steps ++ [.instruction m []]
  | opWith b m ps => b.steps ++ [.instruction m ps]
  | opAt b m x y => b.steps ++ [.instruction m [.real x, .real y]]
  | opPath b m points => b.steps ++ [.path m points]
  | label b t => b.steps ++ [.label t]
  | append b other => b.steps ++ other.steps
  | raw b t => b.steps ++ [.raw t]

/-- Every step can be told from what stands around it: no mnemonic holds a semicolon or begins like
a label, no label holds its terminator, and no text of the caller's is put in. -/
def Closed (b : Build) : Prop := ∀ p ∈ b.steps, p.Closed

instance (b : Build) : Decidable b.Closed := inferInstanceAs (Decidable (∀ p ∈ b.steps, p.Closed))

theorem statement_eq (b : Build) : b.statement = .ofPieces b.steps := by
  have hchars : b.chars = b.steps.flatMap Piece.chars := by
    induction b with
    | new => rfl
    | append b other ihb iho => rw [chars, steps, ihb, iho, List.flatMap_append]
    | _ =>
      rename_i ih
      simp [chars, steps, ih]
  rw [statement, hchars, Statement.ofPieces]

end Build

/-! ## Entries -/

namespace Statement

/-- Statements one after the other. -/
def concat (sts : List Statement) : Statement := ⟨String.join (sts.map text)⟩

variable {ps : List Piece}

/-- **One entry for each step.** -/
theorem instructions_ofPieces (h : ∀ p ∈ ps, p.Closed) :
    (ofPieces ps).instructions = ps.map Piece.entry := by
  rw [instructions, ofPieces, String.toList_ofList, Piece.split_pieces h, List.map_map]
  apply List.map_congr_left
  intro p _
  rw [Function.comp_apply, ← p.toList_entry, String.ofList_toList]

/-- **Each step is counted under its mnemonic**, a label as a label, whatever it says. -/
theorem count_ofPieces (h : ∀ p ∈ ps, p.Closed) {m : String}
    (hlength : ∀ p ∈ ps, m.length = p.mnemonic.length) :
    (ofPieces ps).count m = ps.countP (·.mnemonic = m) := by
  rw [count, ofPieces, String.toList_ofList, Piece.split_pieces h, List.countP_map]
  apply List.countP_congr
  intro p hp
  rw [Function.comp_apply, Piece.isPrefixOf_text (hlength p hp)]

theorem concat_ofPieces (pss : List (List Piece)) :
    concat (pss.map ofPieces) = ofPieces pss.flatten := by
  have htexts : String.join ((pss.map ofPieces).map text) =
      String.ofList (pss.flatten.flatMap Piece.chars) := by
    rw [← String.toList_inj, String.toList_join, String.toList_ofList]
    induction pss with
    | nil => rfl
    | cons ps pss ih =>
      rw [List.map_cons, List.map_cons, List.flatMap_cons, ih, List.flatten_cons,
        List.flatMap_append, ofPieces, String.toList_ofList]
  rw [concat, htexts, ofPieces]

end Statement

open Statement (concat)

theorem Build.concat_statement (bs : List Build) :
    concat (bs.map statement) = .ofPieces (bs.flatMap steps) := by
  have hbs : bs.map statement = (bs.map steps).map Statement.ofPieces := by
    rw [List.map_map]
    exact List.map_congr_left fun b _ => b.statement_eq
  rw [hbs, Statement.concat_ofPieces, List.flatMap_def]

/-- **Splitting undoes building.** What was built is split into one entry for each step, and what
was built one after the other into the entries of all of them. If mnemonics are two characters long,
each step is counted once, under its own. -/
theorem builds_split (bs : List Build) (h : ∀ b ∈ bs, b.Closed) :
    (∀ b ∈ bs, b.statement.instructions = b.steps.map Piece.entry) ∧
      (concat (bs.map Build.statement)).instructions =
        bs.flatMap (fun b => b.statement.instructions) ∧
      ((∀ b ∈ bs, ∀ p ∈ b.steps, p.mnemonic.length = 2) → ∀ m : String, m.length = 2 →
        (∀ b ∈ bs, b.statement.count m = b.steps.countP (·.mnemonic = m)) ∧
          (concat (bs.map Build.statement)).count m =
            (bs.flatMap Build.steps).countP (·.mnemonic = m)) := by
  have each : ∀ b ∈ bs, b.statement.instructions = b.steps.map Piece.entry := by
    intro b hb
    rw [b.statement_eq, Statement.instructions_ofPieces (h b hb)]
  have hall : ∀ p ∈ bs.flatMap Build.steps, p.Closed := by
    intro p hp
    obtain ⟨b, hb, hp⟩ := List.mem_flatMap.mp hp
    exact h b hb p hp
  refine ⟨each, ?_, ?_⟩
  · rw [Build.concat_statement, Statement.instructions_ofPieces hall, List.map_flatMap]
    exact (List.flatMap_congr each).symm
  · intro htwo m hm
    refine ⟨?_, ?_⟩
    · intro b hb
      rw [b.statement_eq]
      apply Statement.count_ofPieces (h b hb)
      intro p hp
      rw [hm, htwo b hb p hp]
    · rw [Build.concat_statement]
      apply Statement.count_ofPieces hall
      intro p hp
      obtain ⟨b, hb, hp⟩ := List.mem_flatMap.mp hp
      rw [hm, htwo b hb p hp]

/-- Two statements, the first with a statement put in whose label looks like instructions. -/
theorem builds_split_label :
    (∀ b ∈ [((Build.new.op "PU").append (.label .new "a;PU;LBb")).opPath "PD" [],
        Build.new.opWith "LT" [.integer 2, .real 4.5]], b.Closed) ∧
      (concat ([((Build.new.op "PU").append (.label .new "a;PU;LBb")).opPath "PD" [],
        Build.new.opWith "LT" [.integer 2, .real 4.5]].map Build.statement)).instructions =
          ["PU", "LBa;PU;LBb", "PD", "LT2,4.5"] ∧
      (concat ([((Build.new.op "PU").append (.label .new "a;PU;LBb")).opPath "PD" [],
        Build.new.opWith "LT" [.integer 2, .real 4.5]].map Build.statement)).count "PU" = 1 := by
  have h : ∀ b ∈ [((Build.new.op "PU").append (.label .new "a;PU;LBb")).opPath "PD" [],
      Build.new.opWith "LT" [.integer 2, .real 4.5]], b.Closed := by decide
  obtain ⟨each, hrow, hcount⟩ := builds_split _ h
  refine ⟨h, ?_, ?_⟩
  · rw [hrow, List.flatMap_congr each]
    decide +kernel
  · rw [(hcount (by decide) "PU" rfl).2]
    rfl

end HpGl
