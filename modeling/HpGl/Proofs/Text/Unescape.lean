import HpGl.Text.Escape
import HpGl.Text.Hexadecimal

/-!
# Escaped texts read back

An escaped text is on one line, whatever was escaped, and it is read back one character after the
other. What looks like an escape in the text itself has its backslash escaped, so there is no other
text that is written the same.

* `hexNumber?_toDigits`: hexadecimal digits are read as the number they are written for.
* `OneLine`: a text without control characters; **`oneLine_escapedChars`**.
* `scanEscaped`, `unescape?`: the reader.
* **`unescape?_escapedChars`**: an escaped text is read as the text.
-/

namespace HpGl.Text

/-! ## Hexadecimal digits -/

section Digits

theorem hexValue?_digitChar {d : Nat} (h : d < 16) : hexValue? d.digitChar = some d := by
  have hall : ∀ d < 16, hexValue? d.digitChar = some d := by decide
  exact hall d h

theorem hexNumber?_append_singleton (cs : List Char) (c : Char) :
    hexNumber? (cs ++ [c]) =
      (hexNumber? cs).bind fun n => (hexValue? c).map (16 * n + ·) := by
  simp [hexNumber?, List.foldlM_append]

/-- **Hexadecimal digits are read as the number they are written for.** -/
theorem hexNumber?_toDigits (n : Nat) : hexNumber? (Nat.toDigits 16 n) = some n := by
  induction n using Nat.strongRecOn with
  | _ n ih =>
    by_cases h : n < 16
    · rw [Nat.toDigits_of_lt_base h]
      simp [hexNumber?, hexValue?_digitChar h]
    · have hmod : n % 16 < 16 := Nat.mod_lt _ (by decide)
      rw [Nat.toDigits_of_base_le (by decide) (Nat.not_lt.mp h), hexNumber?_append_singleton,
        ih (n / 16) (by omega), hexValue?_digitChar hmod, Option.bind_some, Option.map_some]
      exact congrArg some (by omega)

theorem forall_mem_toDigits {P : Char → Prop} (h : ∀ d < 16, P (Nat.digitChar d)) (n : Nat) :
    ∀ c ∈ Nat.toDigits 16 n, P c := by
  induction n using Nat.strongRecOn with
  | _ n ih =>
    by_cases hn : n < 16
    · rw [Nat.toDigits_of_lt_base hn]
      exact List.forall_mem_singleton.mpr (h n hn)
    · rw [Nat.toDigits_of_base_le (by decide) (Nat.not_lt.mp hn)]
      exact List.forall_mem_append.mpr ⟨ih (n / 16) (by omega),
        List.forall_mem_singleton.mpr (h _ (Nat.mod_lt _ (by decide)))⟩

end Digits

/-! ## One line -/

/-- A text without control characters: nothing in it ends a line or is acted on by a terminal. -/
def OneLine (cs : List Char) : Prop := ∀ c ∈ cs, isControl c = false

instance (cs : List Char) : Decidable (OneLine cs) :=
  decidable_of_iff (cs.all (!isControl ·) = true) (by simp [OneLine])

theorem OneLine.append {cs ds : List Char} (h : OneLine cs) (h' : OneLine ds) :
    OneLine (cs ++ ds) :=
  List.forall_mem_append.mpr ⟨h, h'⟩

theorem oneLine_codeEscape (c : Char) : OneLine (codeEscape c) := by
  have hdigits : OneLine (Nat.toDigits 16 c.toNat) := forall_mem_toDigits (by decide) c.toNat
  have hopen : OneLine ['\\', 'u', '\x7b'] := by decide
  have hclose : OneLine ['\x7d'] := by decide
  exact hopen.append (hdigits.append hclose)

theorem isControl_of_escapeLetter? {c l : Char} (h : escapeLetter? c = some l) :
    isControl l = false := by
  unfold escapeLetter? at h
  split at h
  · cases h
    decide
  repeat
    split at h
    · cases h
      decide
  split at h
  · rename_i hc
    cases h
    rcases hc with rfl | rfl | rfl <;> decide
  · exact nomatch h

theorem oneLine_escapeChar (combining : Bool) (c : Char) : OneLine (escapeChar combining c) := by
  unfold escapeChar
  split
  · rename_i l hl
    exact List.forall_mem_cons.mpr
      ⟨by decide, List.forall_mem_singleton.mpr (isControl_of_escapeLetter? hl)⟩
  · split
    · exact oneLine_codeEscape c
    · rename_i hraw
      have hprintable : isPrintable c = true := by simp_all
      refine List.forall_mem_singleton.mpr ?_
      simp only [isPrintable, Bool.and_eq_true, Bool.not_eq_true'] at hprintable
      exact hprintable.1.1

/-- **An escaped text is on one line.** -/
theorem oneLine_escapedChars (cs : List Char) : OneLine (escapedChars cs) := by
  cases cs with
  | nil => exact List.forall_mem_nil _
  | cons c cs =>
    refine (oneLine_escapeChar true c).append fun d hd => ?_
    obtain ⟨e, -, hde⟩ := List.mem_flatMap.mp hd
    exact oneLine_escapeChar false e d hde

/-! ## Reading back -/

/-- The character that a letter behind a backslash stands for. -/
def letterChar? (l : Char) : Option Char :=
  if l = '0' then some '\x00'
  else if l = 't' then some '\t'
  else if l = 'r' then some '\r'
  else if l = 'n' then some '\n'
  else if l = '\\' ∨ l = '"' ∨ l = '\'' then some l
  else none

/-- The first character of what was escaped, and the text behind it. -/
def scanEscaped : List Char → Option (Char × List Char)
  | [] => none
  | '\\' :: 'u' :: '\x7b' :: cs =>
    (hexNumber? (cs.takeWhile (· != '\x7d'))).map fun n =>
      (Char.ofNat n, (cs.dropWhile (· != '\x7d')).drop 1)
  | '\\' :: l :: cs => (letterChar? l).map (·, cs)
  | c :: cs => some (c, cs)

/-- At most so many characters of what was escaped. -/
def unescapeUpTo : Nat → List Char → Option (List Char)
  | _, [] => some []
  | 0, _ :: _ => none
  | fuel + 1, c :: cs => do
    let (d, rest) ← scanEscaped (c :: cs)
    (unescapeUpTo fuel rest).map (d :: ·)

/-- **What was escaped**, absent if nothing is escaped to this text. -/
def unescape? (cs : List Char) : Option (List Char) := unescapeUpTo cs.length cs

theorem letterChar?_of_escapeLetter? {c l : Char} (h : escapeLetter? c = some l) :
    letterChar? l = some c ∧ l ≠ 'u' := by
  unfold escapeLetter? at h
  repeat
    split at h
    · rename_i hc
      cases h
      rw [hc]
      decide
  split at h
  · rename_i hc
    cases h
    rcases hc with rfl | rfl | rfl <;> decide
  · exact nomatch h

theorem scanEscaped_codeEscape (c : Char) (rest : List Char) :
    scanEscaped (codeEscape c ++ rest) = some (c, rest) := by
  have hne : ∀ d ∈ Nat.toDigits 16 c.toNat, (d != '\x7d') = true :=
    forall_mem_toDigits (by decide) c.toNat
  have htake : ((Nat.toDigits 16 c.toNat ++ ['\x7d']) ++ rest).takeWhile (· != '\x7d') =
      Nat.toDigits 16 c.toNat := by
    rw [List.append_assoc, List.takeWhile_append_of_pos hne]
    simp
  have hdrop : ((Nat.toDigits 16 c.toNat ++ ['\x7d']) ++ rest).dropWhile (· != '\x7d') =
      '\x7d' :: rest := by
    rw [List.append_assoc, List.dropWhile_append_of_pos hne]
    simp
  simp only [codeEscape, List.cons_append, scanEscaped]
  rw [htake, hdrop, hexNumber?_toDigits, Option.map_some, Char.ofNat_toNat]
  rfl

theorem scanEscaped_escapeChar (combining : Bool) (c : Char) (rest : List Char) :
    scanEscaped (escapeChar combining c ++ rest) = some (c, rest) := by
  unfold escapeChar
  split
  · rename_i l hl
    obtain ⟨hc, hu⟩ := letterChar?_of_escapeLetter? hl
    rw [List.cons_append, List.singleton_append, scanEscaped, hc, Option.map_some]
    exact fun _ h => absurd h hu
  · rename_i hnone
    split
    · exact scanEscaped_codeEscape c rest
    · have hslash : c ≠ '\\' := by
        rintro rfl
        exact absurd hnone (by decide)
      rw [List.singleton_append, scanEscaped]
      · exact fun _ h => absurd h hslash
      · exact fun _ _ h => absurd h hslash

theorem escapeChar_length_pos (combining : Bool) (c : Char) :
    0 < (escapeChar combining c).length := by
  unfold escapeChar
  split
  · exact Nat.zero_lt_succ _
  · split
    · exact Nat.zero_lt_succ _
    · exact Nat.zero_lt_one

theorem unescapeUpTo_append {combining : Bool} {c : Char} {cs rest : List Char} {fuel : Nat}
    (h : unescapeUpTo fuel rest = some cs) :
    unescapeUpTo (fuel + 1) (escapeChar combining c ++ rest) = some (c :: cs) := by
  obtain ⟨d, ds, hd⟩ := List.exists_cons_of_ne_nil
    (List.ne_nil_of_length_pos (escapeChar_length_pos combining c))
  have hscan := scanEscaped_escapeChar combining c rest
  rw [hd, List.cons_append] at hscan ⊢
  rw [unescapeUpTo, hscan]
  simp [h]

theorem unescapeUpTo_flatMap {cs : List Char} {fuel : Nat} (h : cs.length ≤ fuel) :
    unescapeUpTo fuel (cs.flatMap (escapeChar false)) = some cs := by
  induction cs generalizing fuel with
  | nil => cases fuel <;> rfl
  | cons c cs ih =>
    obtain ⟨fuel, rfl⟩ := Nat.exists_eq_add_of_lt (Nat.lt_of_lt_of_le (Nat.succ_pos _) h)
    rw [Nat.zero_add] at h ⊢
    rw [List.flatMap_cons]
    exact unescapeUpTo_append (ih (Nat.le_of_succ_le_succ h))

theorem length_le_flatMap (cs : List Char) :
    cs.length ≤ (cs.flatMap (escapeChar false)).length := by
  induction cs with
  | nil => exact Nat.le_refl _
  | cons c cs ih =>
    have := escapeChar_length_pos false c
    simp only [List.flatMap_cons, List.length_append, List.length_cons]
    omega

/-- **An escaped text is read as the text.** -/
theorem unescape?_escapedChars (cs : List Char) : unescape? (escapedChars cs) = some cs := by
  cases cs with
  | nil => rfl
  | cons c cs =>
    have hpos := escapeChar_length_pos true c
    have hle := length_le_flatMap cs
    obtain ⟨fuel, hfuel⟩ : ∃ fuel, (escapedChars (c :: cs)).length = fuel + 1 := by
      rw [escapedChars, List.length_append]
      exact ⟨_, (Nat.succ_pred_eq_of_pos (by omega)).symm⟩
    have hcs : cs.length ≤ fuel := by
      rw [escapedChars, List.length_append] at hfuel
      omega
    rw [unescape?, hfuel, escapedChars]
    exact unescapeUpTo_append (unescapeUpTo_flatMap hcs)

example : unescape? (escapedChars "\u0301\\u\x7b301\x7d\u0301".toList) =
    some "\u0301\\u\x7b301\x7d\u0301".toList := by
  decide +kernel

end HpGl.Text
