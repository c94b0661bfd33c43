import HpGl.Proofs.Bytes

/-!
# Splitting any text

A text need not be composed of instructions to be split: it may break off, hold nothing between two
terminators, or be anything else. Nothing of it is lost. Its entries, each with the terminator that
its head calls for, are the text again, up to a terminator that the last instruction lacks. Cutting
the bytes of the text gives the bytes of the entries, so no cut falls inside a character.

* `split_induction`: a text is empty, or its first instruction ends, or it never does.
* `entry_ends`: what an entry cannot hold.
* `rejoined`, `rejoined_split`: the entries with their terminators.
* `splitBytes`, `splitBytes_utf8`: the same cuts, made in bytes.
* **`instructions_lossless`**: the instructions of any text.
-/

namespace HpGl

namespace Statement

/-! ## Entries -/

theorem split_nil : split [] = [] := by rw [split, if_pos rfl]

theorem split_unterminated {cs : List Char} (hne : cs ≠ []) (h : terminatorAt cs ∉ cs) :
    split cs = [cs] := by
  have hall : ∀ c ∈ cs, (c != terminatorAt cs) = true :=
    fun c hc => bne_iff_ne.mpr fun e => h (e ▸ hc)
  rw [split, if_neg hne]
  simp only
  rw [List.takeWhile_eq_self_iff.mpr hall, List.dropWhile_eq_nil_iff.mpr hall, List.drop_nil,
    split_nil]

theorem split_ne_nil {cs : List Char} (h : cs ≠ []) : split cs ≠ [] := by
  rw [split, if_neg h]
  exact List.cons_ne_nil _ _

/-- **The shapes of a text**: nothing, an instruction that does not end, or an instruction with its
terminator and a text behind it. -/
theorem split_induction {P : List Char → Prop} (nil : P [])
    (unterminated : ∀ cs, cs ≠ [] → terminatorAt cs ∉ cs → P cs)
    (terminated : ∀ e rest, terminatorAt e ∉ e → P rest → P (e ++ terminatorAt e :: rest))
    (cs : List Char) : P cs := by
  by_cases h : terminatorAt cs ∈ cs
  · obtain ⟨e, rest, hcs, he⟩ := List.eq_append_cons_of_mem h
    -- The head of the text decides on the terminator, and it stands before that.
    have hhead : terminatorAt e = terminatorAt cs := by
      by_contra hne
      have hlabel : ['L', 'B'] <+: e ↔ ['L', 'B'] <+: cs := by
        rw [hcs]
        refine (isPrefix_append_iff fun c hc => ?_).symm
        obtain rfl := Option.some.inj hc
        unfold terminatorAt
        split <;> exact ⟨by decide, by decide⟩
      refine hne ?_
      by_cases hl : ['L', 'B'] <+: e
      · rw [terminatorAt_of_isPrefix hl, terminatorAt_of_isPrefix (hlabel.mp hl)]
      · rw [terminatorAt_of_not_isPrefix hl, terminatorAt_of_not_isPrefix (mt hlabel.mpr hl)]
    have hlt : rest.length < cs.length := by
      rw [hcs, List.length_append, List.length_cons]
      omega
    have hrest := split_induction nil unterminated terminated rest
    rw [← hhead] at hcs he
    rw [hcs]
    exact terminated e rest he hrest
  · by_cases hne : cs = []
    · rw [hne]
      exact nil
    · exact unterminated cs hne h
termination_by cs.length

theorem length_split_le (cs : List Char) : (split cs).length ≤ cs.length := by
  induction cs using split_induction with
  | nil => exact split_nil ▸ le_rfl
  | unterminated cs hne h =>
    rw [split_unterminated hne h]
    exact List.length_pos_iff.mpr hne
  | terminated e rest he ih =>
    rw [split_terminated he, List.length_cons, List.length_append, List.length_cons]
    omega

/-- **An entry does not hold the terminator that its head calls for.** -/
theorem entry_ends (cs : List Char) : ∀ e ∈ split cs, terminatorAt e ∉ e := by
  induction cs using split_induction with
  | nil =>
    rw [split_nil]
    exact nofun
  | unterminated cs hne h =>
    rw [split_unterminated hne h]
    exact List.forall_mem_singleton.mpr h
  | terminated e rest he ih =>
    rw [split_terminated he]
    exact List.forall_mem_cons.mpr ⟨he, ih⟩

/-! ## The entries with their terminators -/

/-- Entries, each with the terminator that its head calls for. -/
def rejoined (es : List (List Char)) : List Char := es.flatMap fun e => e ++ [terminatorAt e]

/-- The last instruction of a text lacks its terminator. -/
def Unterminated (cs : List Char) : Prop :=
  ∃ e ∈ (split cs).getLast?, cs.getLast? ≠ some (terminatorAt e)

theorem not_unterminated_nil : ¬ Unterminated [] := by
  rintro ⟨e, he, -⟩
  rw [split_nil] at he
  exact nomatch he

theorem unterminated_iff_of_terminated {e : List Char} (rest : List Char)
    (he : terminatorAt e ∉ e) : Unterminated (e ++ terminatorAt e :: rest) ↔ Unterminated rest := by
  unfold Unterminated
  rw [split_terminated he]
  by_cases h : rest = []
  · subst h
    simp [split_nil]
  · have hlast : (e ++ terminatorAt e :: rest).getLast? = rest.getLast? := by
      rw [List.getLast?_append_of_ne_nil _ (List.cons_ne_nil _ _), List.getLast?_cons_of_ne_nil h]
    rw [hlast, List.getLast?_cons_of_ne_nil (split_ne_nil h)]

/-- **The entries with their terminators are the text**, if its last instruction ends. -/
theorem rejoined_split {cs : List Char} (h : ¬ Unterminated cs) : rejoined (split cs) = cs := by
  induction cs using split_induction with
  | nil => rw [split_nil, rejoined, List.flatMap_nil]
  | unterminated cs hne hno =>
    refine absurd ⟨cs, ?_, fun hlast => hno ?_⟩ h
    · rw [split_unterminated hne hno]
      rfl
    · exact List.mem_of_getLast? hlast
  | terminated e rest he ih =>
    have hrest := ih (mt (unterminated_iff_of_terminated rest he).mpr h)
    rw [rejoined] at hrest
    rw [split_terminated he, rejoined, List.flatMap_cons, hrest, List.append_assoc,
      List.singleton_append]

theorem rejoined_split_unterminated {cs : List Char} (h : Unterminated cs) :
    ∃ e, (split cs).getLast? = some e ∧ rejoined (split cs) = cs ++ [terminatorAt e] := by
  induction cs using split_induction with
  | nil => exact absurd h not_unterminated_nil
  | unterminated cs hne hno =>
    refine ⟨cs, ?_, ?_⟩
    · rw [split_unterminated hne hno]
      rfl
    · rw [split_unterminated hne hno, rejoined, List.flatMap_singleton]
  | terminated e rest he ih =>
    have hrest := (unterminated_iff_of_terminated rest he).mp h
    obtain ⟨last, hlast, hjoin⟩ := ih hrest
    have hne : split rest ≠ [] := by
      rintro h0
      rw [h0] at hlast
      exact nomatch hlast
    rw [rejoined] at hjoin
    refine ⟨last, ?_, ?_⟩
    · rw [split_terminated he, List.getLast?_cons_of_ne_nil hne, hlast]
    · rw [split_terminated he, rejoined, List.flatMap_cons, hjoin]
      simp

/-! ## Bytes -/

/-- The byte that ends the instruction at the head of a text. -/
def terminatorByteAt (bs : List UInt8) : UInt8 :=
  if [0x4C, 0x42].isPrefixOf bs then 0x03 else 0x3B

/-- The instructions of a text, cut at bytes. -/
def splitBytes (bs : List UInt8) : List (List UInt8) :=
  if bs = [] then []
  else
    let t := terminatorByteAt bs
    bs.takeWhile (· != t) :: splitBytes ((bs.dropWhile (· != t)).drop 1)
termination_by bs.length
decreasing_by
  rename_i h
  have hle := (List.dropWhile_suffix (fun b => b != terminatorByteAt bs) (l := bs)).length_le
  have := List.length_pos_iff.mpr h
  simp only [List.length_drop]
  omega

theorem isAscii_terminatorAt (cs : List Char) : IsAscii (terminatorAt cs) := by
  unfold terminatorAt
  split <;> decide

theorem terminatorByteAt_utf8 (cs : List Char) :
    terminatorByteAt (utf8 cs) = (terminatorAt cs).toUInt8 := by
  have hascii : ∀ c ∈ ['L', 'B'], IsAscii c :=
    List.forall_mem_cons.mpr ⟨by decide, List.forall_mem_singleton.mpr (by decide)⟩
  have hhead : [0x4C, 0x42] <+: utf8 cs ↔ ['L', 'B'] <+: cs := prefix_utf8_iff hascii cs
  unfold terminatorByteAt terminatorAt
  by_cases h : ['L', 'B'] <+: cs
  · rw [if_pos (List.isPrefixOf_iff_prefix.mpr (hhead.mpr h)),
      if_pos (List.isPrefixOf_iff_prefix.mpr h)]
    rfl
  · rw [if_neg fun e => h (hhead.mp (List.isPrefixOf_iff_prefix.mp e)),
      if_neg fun e => h (List.isPrefixOf_iff_prefix.mp e)]
    rfl

/-- **The bytes of a text are cut where the text is.** -/
theorem splitBytes_utf8 (cs : List Char) : splitBytes (utf8 cs) = (split cs).map utf8 := by
  fun_induction split cs with
  | case1 => rw [utf8_nil, splitBytes, if_pos rfl, List.map_nil]
  | case2 cs hne t ih =>
    have hbytes : utf8 cs ≠ [] := by
      intro h
      have hle := length_le_utf8 cs
      rw [h, List.length_nil, Nat.le_zero, List.length_eq_zero_iff] at hle
      exact hne hle
    have hdrop : (utf8 (cs.dropWhile (· != t))).drop 1 = utf8 ((cs.dropWhile (· != t)).drop 1) := by
      -- What is dropped is the terminator, a single byte, or there is nothing left.
      cases hd : cs.dropWhile (· != t) with
      | nil => rfl
      | cons c rest =>
        have hc : c = t := by
          have hhead := List.head_dropWhile_not (fun c => c != t) (l := cs) (by rw [hd]; simp)
          simpa [hd] using hhead
        rw [hc, utf8_cons, encodeChar_of_ascii (isAscii_terminatorAt cs)]
        rfl
    rw [splitBytes, if_neg hbytes]
    simp only
    rw [terminatorByteAt_utf8, takeWhile_utf8 (isAscii_terminatorAt cs),
      dropWhile_utf8 (isAscii_terminatorAt cs), hdrop, ih, List.map_cons]

theorem size_eq (s : Statement) : s.size = (utf8 s.text.toList).length := by
  rw [← s.bytes_eq, bytes, toList_eq, Array.length_toList]
  rfl

/-! ## Any text -/

/-- The character that ends an entry. -/
def closing (e : String) : Char := terminatorAt e.toList

/-- Entries, each with the character that ends it. -/
def rejoin (es : List String) : String := String.join (es.map fun e => e.push (closing e))

theorem toList_rejoin (es : List String) :
    (rejoin es).toList = rejoined (es.map String.toList) := by
  rw [rejoin, String.toList_join, rejoined, List.flatMap_map, List.flatMap_map]
  refine List.flatMap_congr fun e _ => ?_
  rw [String.toList_push, closing]

theorem toList_instructions (s : Statement) :
    s.instructions.map String.toList = split s.text.toList := by
  rw [instructions, List.map_map]
  refine (List.map_congr_left fun cs _ => ?_).trans (List.map_id _)
  rw [Function.comp_apply, String.toList_ofList, id]

/-- **Splitting any text loses nothing.** There are at most as many instructions as bytes, and the
cuts between them are cuts of the bytes. No label holds the character that ends it, and no other
instruction a semicolon. With these characters behind them the instructions are the text again, and
one character more only if the last of them lacks it. -/
theorem instructions_lossless (s : Statement) :
    (s.instructions.length ≤ s.size ∧
      splitBytes s.bytes = s.instructions.map fun e => utf8 e.toList) ∧
    (∀ e ∈ s.instructions, (['L', 'B'] <+: e.toList → labelTerminator ∉ e.toList) ∧
      (¬ ['L', 'B'] <+: e.toList → terminator ∉ e.toList)) ∧
    (¬ Unterminated s.text.toList → rejoin s.instructions = s.text) ∧
    (Unterminated s.text.toList → ∃ e, s.instructions.getLast? = some e ∧
      rejoin s.instructions = s.text.push (closing e)) := by
  have hsplit := s.toList_instructions
  refine ⟨⟨?_, ?_⟩, ?_, ?_, ?_⟩
  · rw [← List.length_map (f := String.toList), hsplit, size_eq]
    exact (length_split_le _).trans (length_le_utf8 _)
  · rw [s.bytes_eq, splitBytes_utf8, ← hsplit, List.map_map]
    rfl
  · intro e he
    have hends := entry_ends s.text.toList e.toList (hsplit ▸ List.mem_map_of_mem he)
    constructor
    · intro h
      rwa [terminatorAt_of_isPrefix h] at hends
    · intro h
      rwa [terminatorAt_of_not_isPrefix h] at hends
  · intro h
    rw [← String.toList_inj, toList_rejoin, hsplit, rejoined_split h]
  · intro h
    obtain ⟨cs, hlast, hjoin⟩ := rejoined_split_unterminated h
    refine ⟨String.ofList cs, ?_, ?_⟩
    · rw [instructions, List.getLast?_map, hlast]
      rfl
    · rw [← String.toList_inj, toList_rejoin, hsplit, hjoin, String.toList_push, closing,
        String.toList_ofList]

end Statement

end HpGl
