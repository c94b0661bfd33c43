import HpGl.Proofs.Splitting

/-!
# The bytes of a text

A text is sent as its bytes in UTF-8. A character below `0x80` is one byte with the number of the
character, any other character is bytes from `0x80` on. So bytes below `0x80` stand for characters
of their own wherever they occur, and a text that is cut at one of them is cut between two
characters.

* `utf8`: the bytes of characters; `Statement.bytes_eq`.
* `IsAscii`: the characters that are one byte.
* `encodeChar_of_ascii`, `encodeChar_high`: the bytes of one character.
* `count_utf8`, `mem_utf8`, `utf8_ascii_iff`: what the bytes say about the characters.
* **`takeWhile_utf8`**, **`dropWhile_utf8`**, `prefix_utf8_iff`: searching the bytes is searching
  the characters.
-/

namespace HpGl

open String (utf8EncodeChar)

/-! ## Characters -/

/-- A character of one byte. -/
def IsAscii (c : Char) : Prop := c.toNat < 0x80

instance (c : Char) : Decidable (IsAscii c) := inferInstanceAs (Decidable (c.toNat < 0x80))

theorem toNat_toUInt8 {c : Char} (h : IsAscii c) : c.toUInt8.toNat = c.toNat := by
  have hlt : c.toNat < 0x80 := h
  exact Nat.mod_eq_of_lt (hlt.trans (by decide))

theorem toUInt8_inj {c d : Char} (hc : IsAscii c) (hd : IsAscii d) :
    c.toUInt8 = d.toUInt8 ↔ c = d := by
  rw [← UInt8.toNat_inj, toNat_toUInt8 hc, toNat_toUInt8 hd, Char.toNat_inj]

theorem encodeChar_of_ascii {c : Char} (h : IsAscii c) : utf8EncodeChar c = [c.toUInt8] :=
  if_pos (Nat.le_of_lt_succ h)

theorem encodeChar_high {c : Char} (h : ¬ IsAscii c) : ∀ b ∈ utf8EncodeChar c, 0x80 ≤ b.toNat := by
  have hlow : ¬ c.val.toNat ≤ 0x7F := fun e => h (Nat.lt_succ_of_le e)
  have hhigh (n : ℕ) (hn : 0x80 ≤ n % 256) : 0x80 ≤ (UInt8.ofNat n).toNat := by
    rw [UInt8.toNat_ofNat']
    exact hn
  unfold utf8EncodeChar
  simp only
  rw [if_neg hlow]
  split
  · simp only [List.forall_mem_cons]
    exact ⟨hhigh _ (by omega), hhigh _ (by omega), nofun⟩
  · split
    · simp only [List.forall_mem_cons]
      exact ⟨hhigh _ (by omega), hhigh _ (by omega), hhigh _ (by omega), nofun⟩
    · simp only [List.forall_mem_cons]
      exact ⟨hhigh _ (by omega), hhigh _ (by omega), hhigh _ (by omega), hhigh _ (by omega), nofun⟩

theorem toUInt8_ne_of_high {c d : Char} (hd : IsAscii d) (hc : ¬ IsAscii c) :
    ∀ b ∈ utf8EncodeChar c, b ≠ d.toUInt8 := by
  rintro b hb rfl
  have hlow : d.toNat < 0x80 := hd
  have hhigh := encodeChar_high hc _ hb
  rw [toNat_toUInt8 hd] at hhigh
  omega

/-! ## Texts -/

/-- The bytes of characters. -/
def utf8 (cs : List Char) : List UInt8 := cs.flatMap utf8EncodeChar

@[simp] theorem utf8_nil : utf8 [] = [] := rfl

@[simp] theorem utf8_cons (c : Char) (cs : List Char) :
    utf8 (c :: cs) = utf8EncodeChar c ++ utf8 cs := List.flatMap_cons

@[simp] theorem utf8_append (cs ds : List Char) : utf8 (cs ++ ds) = utf8 cs ++ utf8 ds :=
  List.flatMap_append

theorem Statement.bytes_eq (s : Statement) : s.bytes = utf8 s.text.toList := by
  have htext : s.text.toByteArray = (utf8 s.text.toList).toByteArray := by
    rw [← String.ofList_toList (s := s.text), String.toByteArray_ofList, String.toList_ofList]
    rfl
  rw [bytes, toList_eq, String.toUTF8_eq_toByteArray, htext, List.toList_data_toByteArray]

theorem length_le_utf8 (cs : List Char) : cs.length ≤ (utf8 cs).length := by
  induction cs with
  | nil => exact le_rfl
  | cons c cs ih =>
    have hpos := c.utf8Size_pos
    rw [utf8_cons, List.length_append, String.length_utf8EncodeChar, List.length_cons]
    omega

/-- **The bytes are below `0x80` where the characters are.** -/
theorem utf8_ascii_iff (cs : List Char) :
    (∀ b ∈ utf8 cs, b.toNat < 0x80) ↔ ∀ c ∈ cs, IsAscii c := by
  induction cs with
  | nil => exact iff_of_true nofun nofun
  | cons c cs ih =>
    rw [utf8_cons, List.forall_mem_append, List.forall_mem_cons, ih]
    refine and_congr_left fun _ => ?_
    by_cases hc : IsAscii c
    · rw [encodeChar_of_ascii hc, List.forall_mem_singleton, toNat_toUInt8 hc]
      rfl
    · refine iff_of_false (fun h => ?_) hc
      obtain ⟨b, hb⟩ := List.exists_mem_of_ne_nil _ (String.utf8EncodeChar_ne_nil (c := c))
      exact absurd (h b hb) (Nat.not_lt.mpr (encodeChar_high hc b hb))

section Search

variable {d : Char} (hd : IsAscii d)

include hd

/-- **A byte below `0x80` occurs as often as its character.** -/
theorem count_utf8 (cs : List Char) : (utf8 cs).count d.toUInt8 = cs.count d := by
  induction cs with
  | nil => rfl
  | cons c cs ih =>
    rw [utf8_cons, List.count_append, ih, List.count_cons, Nat.add_comm]
    congr 1
    by_cases hc : IsAscii c
    · rw [encodeChar_of_ascii hc, List.count_singleton]
      simp only [beq_iff_eq, toUInt8_inj hc hd]
    · have hne : c ≠ d := fun e => hc (e ▸ hd)
      rw [if_neg (by simpa using hne)]
      exact List.count_eq_zero.mpr fun h => toUInt8_ne_of_high hd hc _ h rfl

theorem mem_utf8 (cs : List Char) : d.toUInt8 ∈ utf8 cs ↔ d ∈ cs := by
  rw [← List.count_pos_iff, count_utf8 hd, List.count_pos_iff]

theorem takeWhile_utf8 (cs : List Char) :
    (utf8 cs).takeWhile (· != d.toUInt8) = utf8 (cs.takeWhile (· != d)) := by
  induction cs with
  | nil => rfl
  | cons c cs ih =>
    by_cases hc : IsAscii c
    · by_cases hcd : c = d
      · subst hcd
        simp [encodeChar_of_ascii hc]
      · have hb : c.toUInt8 ≠ d.toUInt8 := mt (toUInt8_inj hc hd).mp hcd
        simp [encodeChar_of_ascii hc, hcd, hb, ih]
    · have hne : c ≠ d := fun e => hc (e ▸ hd)
      have hall : ∀ b ∈ utf8EncodeChar c, (b != d.toUInt8) = true :=
        fun b hb => bne_iff_ne.mpr (toUInt8_ne_of_high hd hc b hb)
      rw [utf8_cons, List.takeWhile_append_of_pos hall, ih]
      simp [hne]

theorem dropWhile_utf8 (cs : List Char) :
    (utf8 cs).dropWhile (· != d.toUInt8) = utf8 (cs.dropWhile (· != d)) := by
  have htake := takeWhile_utf8 hd cs
  have hsplit : utf8 (cs.takeWhile (· != d)) ++ utf8 (cs.dropWhile (· != d)) = utf8 cs := by
    rw [← utf8_append, List.takeWhile_append_dropWhile]
  have hbytes := List.takeWhile_append_dropWhile (p := (· != d.toUInt8)) (l := utf8 cs)
  rw [htake] at hbytes
  exact List.append_cancel_left (hbytes.trans hsplit.symm)

end Search

theorem prefix_utf8_iff {ps : List Char} (hp : ∀ c ∈ ps, IsAscii c) (cs : List Char) :
    ps.map Char.toUInt8 <+: utf8 cs ↔ ps <+: cs := by
  induction ps generalizing cs with
  | nil => simp
  | cons p ps ih =>
    obtain ⟨hp, hps⟩ := List.forall_mem_cons.mp hp
    cases cs with
    | nil => simp
    | cons c cs =>
      rw [List.map_cons, utf8_cons, List.cons_prefix_cons]
      by_cases hc : IsAscii c
      · rw [encodeChar_of_ascii hc, List.singleton_append, List.cons_prefix_cons, ih hps,
          toUInt8_inj hp hc]
      · obtain ⟨b, bs, hb⟩ := List.exists_cons_of_ne_nil (String.utf8EncodeChar_ne_nil (c := c))
        have hne := toUInt8_ne_of_high hp hc b (hb ▸ List.mem_cons_self)
        rw [hb, List.cons_append, List.cons_prefix_cons]
        refine iff_of_false (fun h => hne h.1.symm) ?_
        rintro ⟨rfl, -⟩
        exact hc hp

end HpGl
