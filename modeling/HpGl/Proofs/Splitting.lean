import HpGl.Instruction
import HpGl.Proofs.Number

/-!
# Splitting undoes composing

A text of instructions and labels, each with its terminator, splits into exactly these. Numbers
never look like a terminator or like the head of a label, so an instruction may have any
parameters.

* `Param.chars_numeric`, `Param.list_characters`: the characters of parameters.
* `split_terminated`: the first instruction of a text.
* `Piece.text`, `Piece.Closed`: a piece without its terminator, and when it is recognized again.
* **`split_pieces`**: splitting what was composed of closed pieces.
* `Statement.ofBytes?`: the text behind the bytes on the wire; `ofBytes?_bytes`.
-/

namespace HpGl

/-! ## Parameters -/

namespace Param

theorem chars_numeric (p : Param) : ∀ c ∈ p.chars, isNumeric c = true := by
  cases p with
  | real v =>
    simp only [chars]
    split
    · exact List.forall_mem_singleton.mpr (by decide)
    · exact display_numeric v
  | integer n => exact integerChars_numeric n

/-- The parameters of an instruction, separated by commas. -/
def list (ps : List Param) : List Char := [','].intercalate (ps.map chars)

theorem list_cons_cons (p q : Param) (ps : List Param) :
    list (p :: q :: ps) = p.chars ++ ',' :: list (q :: ps) := by
  simp [list, List.intercalate]

theorem list_characters (ps : List Param) : ∀ c ∈ list ps, isNumeric c = true ∨ c = ',' := by
  induction ps with
  | nil => simp [list, List.intercalate]
  | cons p ps ih =>
    cases ps with
    | nil =>
      intro c hc
      exact .inl (p.chars_numeric c (by simpa [list, List.intercalate] using hc))
    | cons q ps =>
      rw [list_cons_cons]
      refine List.forall_mem_append.mpr ⟨fun c hc => .inl (p.chars_numeric c hc), ?_⟩
      exact List.forall_mem_cons.mpr ⟨.inr rfl, ih⟩

end Param

/-! ## Splitting -/

namespace Statement

theorem terminatorAt_of_isPrefix {cs : List Char} (h : ['L', 'B'] <+: cs) :
    terminatorAt cs = labelTerminator :=
  if_pos (List.isPrefixOf_iff_prefix.mpr h)

theorem terminatorAt_of_not_isPrefix {cs : List Char} (h : ¬ ['L', 'B'] <+: cs) :
    terminatorAt cs = terminator :=
  if_neg fun e => h (List.isPrefixOf_iff_prefix.mp e)

theorem isPrefix_append_iff {cs rest : List Char} (h : ∀ c ∈ rest.head?, c ≠ 'L' ∧ c ≠ 'B') :
    ['L', 'B'] <+: cs ++ rest ↔ ['L', 'B'] <+: cs := by
  refine ⟨fun e => ?_, fun e => e.trans (List.prefix_append cs rest)⟩
  cases cs with
  | nil =>
    obtain ⟨t, rfl⟩ := e
    exact absurd rfl (h 'L' rfl).1
  | cons c cs =>
    obtain ⟨rfl, hB⟩ := List.cons_prefix_cons.mp e
    cases cs with
    | nil =>
      obtain ⟨t, rfl⟩ := hB
      exact absurd rfl (h 'B' rfl).2
    | cons d cs =>
      obtain ⟨rfl, -⟩ := List.cons_prefix_cons.mp hB
      exact ⟨cs, rfl⟩

/-- Whether a label begins is known before its terminator comes. -/
theorem terminatorAt_append (cs rest : List Char) :
    terminatorAt (cs ++ terminatorAt cs :: rest) = terminatorAt cs := by
  by_cases h : ['L', 'B'] <+: cs
  · rw [terminatorAt_of_isPrefix h, terminatorAt_of_isPrefix (h.trans (List.prefix_append _ _))]
  · rw [terminatorAt_of_not_isPrefix h]
    refine terminatorAt_of_not_isPrefix fun e => h ((isPrefix_append_iff ?_).mp e)
    simp [terminator]

/-- **The first instruction of a text** ends at its terminator. -/
theorem split_terminated {cs : List Char} (h : terminatorAt cs ∉ cs) (rest : List Char) :
    split (cs ++ terminatorAt cs :: rest) = cs :: split rest := by
  have hne : ∀ c ∈ cs, (c != terminatorAt cs) = true :=
    fun c hc => bne_iff_ne.mpr fun e => h (e ▸ hc)
  rw [split, if_neg (by simp), terminatorAt_append]
  simp [List.takeWhile_append_of_pos hne, List.dropWhile_append_of_pos hne]

end Statement

/-! ## Pieces -/

namespace Piece

open Statement

/-- A piece without its terminator. -/
def text : Piece → List Char
  | instruction m ps => m.toList ++ Param.list ps
  | label t => 'L' :: 'B' :: t.toList
  | raw t => t.toList

/-- A piece that can be told from what stands around it: an instruction whose mnemonic holds no
semicolon and does not begin like a label, or a label without a terminator in its text. -/
def Closed : Piece → Prop
  | instruction m _ => terminator ∉ m.toList ∧ ¬ ['L', 'B'] <+: m.toList
  | label t => labelTerminator ∉ t.toList
  | raw _ => False

theorem terminatorAt_label (t : String) : terminatorAt (label t).text = labelTerminator :=
  terminatorAt_of_isPrefix ⟨t.toList, rfl⟩

theorem terminatorAt_instruction {m : String} {ps : List Param} (h : (instruction m ps).Closed) :
    terminatorAt (instruction m ps).text = terminator := by
  refine terminatorAt_of_not_isPrefix fun e => h.2 ((isPrefix_append_iff fun c hc => ?_).mp e)
  rcases Param.list_characters ps c (List.mem_of_mem_head? hc) with hn | rfl
  · constructor <;> (rintro rfl; exact absurd hn (by decide))
  · decide

theorem chars_eq {p : Piece} (h : p.Closed) : p.chars = p.text ++ [terminatorAt p.text] := by
  cases p with
  | instruction m ps =>
    rw [terminatorAt_instruction h]
    rfl
  | label t =>
    rw [terminatorAt_label]
    rfl
  | raw t => exact h.elim

theorem terminatorAt_not_mem {p : Piece} (h : p.Closed) : terminatorAt p.text ∉ p.text := by
  cases p with
  | instruction m ps =>
    rw [terminatorAt_instruction h]
    refine fun hm => (List.mem_append.mp hm).elim h.1 fun hps => ?_
    rcases Param.list_characters ps _ hps with hn | hn
    · exact absurd hn (by decide)
    · exact absurd hn (by decide)
  | label t =>
    rw [terminatorAt_label]
    refine fun hm => h ?_
    simpa [text, labelTerminator] using hm
  | raw t => exact h.elim

/-- **Splitting undoes composing.** -/
theorem split_pieces {ps : List Piece} (h : ∀ p ∈ ps, p.Closed) :
    split (ps.flatMap chars) = ps.map text := by
  induction ps with
  | nil => rw [List.flatMap_nil, split, if_pos rfl, List.map_nil]
  | cons p ps ih =>
    obtain ⟨hp, hps⟩ := List.forall_mem_cons.mp h
    rw [List.flatMap_cons, chars_eq hp, List.append_assoc, List.singleton_append,
      split_terminated (terminatorAt_not_mem hp), ih hps, List.map_cons]

end Piece

/-! ## Bytes -/

theorem toList_loop_eq (b : ByteArray) (i : Nat) (r : List UInt8) :
    ByteArray.toList.loop b i r = r.reverse ++ b.data.toList.drop i := by
  fun_induction ByteArray.toList.loop b i r with
  | case1 i r h ih =>
    have hi : i < b.data.toList.length := h
    have hget : b.get! i = b.data.toList[i] := getElem!_pos b.data i h
    rw [ih, List.drop_eq_getElem_cons hi, List.reverse_cons, List.append_assoc, hget]
    rfl
  | case2 i r h =>
    rw [List.drop_eq_nil_of_le (Nat.not_lt.mp h), List.append_nil]

theorem toList_eq (b : ByteArray) : b.toList = b.data.toList := toList_loop_eq b 0 []

theorem toByteArray_toList (b : ByteArray) : b.toList.toByteArray = b := by
  refine ByteArray.ext (Array.toList_inj.mp ?_)
  rw [List.toList_data_toByteArray, toList_eq]

namespace Statement

/-- The statement with these bytes, if they are the bytes of a text. -/
def ofBytes? (bytes : List UInt8) : Option Statement :=
  (String.fromUTF8? bytes.toByteArray).map Statement.mk

theorem ofBytes?_bytes (s : Statement) : ofBytes? s.bytes = some s := by
  rw [ofBytes?, bytes, toByteArray_toList, String.toUTF8_eq_toByteArray, String.fromUTF8?,
    dif_pos s.text.isValidUTF8]
  rfl

theorem bytes_ofPieces_append (ps qs : List Piece) :
    (ofPieces (ps ++ qs)).bytes = (ofPieces ps).bytes ++ (ofPieces qs).bytes := by
  simp only [bytes, ofPieces, List.flatMap_append, String.ofList_append, toList_eq,
    String.toUTF8_eq_toByteArray, String.toByteArray_append, ByteArray.toList_data_append]

end Statement

end HpGl
