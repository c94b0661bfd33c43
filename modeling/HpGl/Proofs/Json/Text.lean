import HpGl.Json.Value
import HpGl.Proofs.Json.Number

/-!
# The text of a document

The text of a document is scanned as the document it was written for: strings with everything that
had to be escaped in them, whole numbers, doubles, arrays and objects inside each other.

* `scanString_escaped`: strings, whatever characters they hold.
* `Value.scan`: a document as it is scanned; `Value.Legible`: its numbers can be read.
* `scanValue_chars`: a value with any text behind it.
* **`scan_render`**: a whole text.
-/

namespace HpGl.Json

/-! ## Strings -/

section Strings

theorem hexNumber?_escape {n : ℕ} (h : n < 0x20) :
    Text.hexNumber? ['0', '0', Nat.digitChar (n / 16), Nat.digitChar (n % 16)] = some n := by
  interval_cases n <;> rfl

theorem unescape?_escapeLetter {c l : Char} (h : escapeLetter? c = some l) :
    unescape? l = some c ∧ l ≠ 'u' := by
  unfold escapeLetter? at h
  split at h
  · rename_i hc
    obtain rfl := Option.some.inj h
    rcases hc with rfl | rfl <;> decide
  repeat
    split at h
    · rename_i hc
      obtain rfl := Option.some.inj h
      rw [hc]
      decide
  exact nomatch h

theorem ne_of_escapeLetter {c : Char} (h : escapeLetter? c = none) : c ≠ '"' ∧ c ≠ '\\' := by
  constructor <;>
    (rintro rfl
     exact absurd h (by decide))

theorem scanUnits_escapeChar (c : Char) (cs : List Char) :
    scanUnits (escapeChar c ++ cs) =
      (scanUnits cs).map fun (us, rest) => (c.toNat :: us, rest) := by
  unfold escapeChar
  split
  · rename_i l hl
    obtain ⟨hc, hu⟩ := unescape?_escapeLetter hl
    rw [List.cons_append, List.singleton_append, scanUnits, hc]
    · cases scanUnits cs <;> rfl
    · exact fun _ _ _ _ _ h => absurd h hu
  · rename_i hl
    obtain ⟨hquote, hslash⟩ := ne_of_escapeLetter hl
    split
    · rename_i h
      change (Text.hexNumber? ['0', '0', Nat.digitChar (c.toNat / 16),
        Nat.digitChar (c.toNat % 16)]).bind _ = _
      rw [hexNumber?_escape h, List.append_eq, List.nil_append]
      cases scanUnits cs <;> rfl
    · rename_i h
      rw [List.singleton_append, scanUnits, if_neg (not_or.mpr ⟨hslash, h⟩)]
      · exact fun h => absurd h hquote
      · exact fun _ _ _ _ _ h => absurd h hslash
      · exact fun _ _ h => absurd h hslash

theorem scanUnits_escaped (cs rest : List Char) :
    scanUnits (cs.flatMap escapeChar ++ '"' :: rest) = some (cs.map Char.toNat, rest) := by
  induction cs with
  | nil => simp [scanUnits]
  | cons c cs ih =>
    rw [List.flatMap_cons, List.append_assoc, scanUnits_escapeChar, ih]
    rfl

theorem textOfUnits?_toNat (cs : List Char) : textOfUnits? (cs.map Char.toNat) = some cs := by
  induction cs with
  | nil => rfl
  | cons c cs ih =>
    have hvalid : c.toNat < 0xD800 ∨ (0xDFFF < c.toNat ∧ c.toNat < 0x110000) := c.valid
    rw [List.map_cons, textOfUnits?.eq_def]
    simp only
    rw [if_neg (by omega), if_neg (by omega), ih, Char.ofNat_toNat]
    rfl

/-- **Strings are scanned as they were written**, whatever characters they hold. -/
theorem scanString_escaped (s : String) (rest : List Char) :
    scanString (s.toList.flatMap escapeChar ++ '"' :: rest) = some (some s, rest) := by
  rw [scanString, scanUnits_escaped, Option.map_some]
  simp only
  rw [textOfUnits?_toNat, Option.map_some, String.ofList_toList]

theorem stringChars_append (s : String) (cs : List Char) :
    stringChars s ++ cs = '"' :: (s.toList.flatMap escapeChar ++ '"' :: cs) := by
  simp [stringChars]

end Strings

/-! ## Documents -/

namespace Value

mutual

/-- **A document as it is scanned.** -/
def scan : Value → Scan
  | null => .null
  | boolean b => .boolean b
  | integer n => .integer n
  | real x => .real x
  | string s => .string (some s)
  | array items => .array (itemScans items) true
  | object members => .object (memberScans members) true

/-- The items of an array as they are scanned. -/
def itemScans : List Value → List Scan
  | [] => []
  | v :: vs => v.scan :: itemScans vs

/-- The members of an object as they are scanned. -/
def memberScans : List (String × Value) → Members
  | [] => []
  | (k, v) :: ms => (some k, v.scan) :: memberScans ms

end

mutual

/-- **The numbers of a document can be read**: sixty-four bits hold the whole ones, and the doubles
are finite and read as the nearest ones. -/
def Legible : Value → Prop
  | integer n => -0x8000000000000000 ≤ n ∧ n < 0x10000000000000000
  | real x => x.isFinite = true ∧ ReadsNearest x
  | array items => ItemsLegible items
  | object members => MembersLegible members
  | null | boolean _ | string _ => True

/-- The numbers of the items can be read. -/
def ItemsLegible : List Value → Prop
  | [] => True
  | v :: vs => v.Legible ∧ ItemsLegible vs

/-- The numbers of the members can be read. -/
def MembersLegible : List (String × Value) → Prop
  | [] => True
  | (_, v) :: ms => v.Legible ∧ MembersLegible ms

end

end Value

/-! ## Heads of texts -/

/-- The first character of a value: no blank, and not the end of an array. -/
def Opens (c : Char) : Prop := c ≠ ' ' ∧ c ≠ '\n' ∧ c ≠ '\t' ∧ c ≠ '\r' ∧ c ≠ ']'

instance (c : Char) : Decidable (Opens c) := instDecidableAnd

theorem skipBlanks_cons {c : Char} (h : Opens c) (cs : List Char) :
    skipBlanks (c :: cs) = c :: cs := by
  obtain ⟨h₁, h₂, h₃, h₄, -⟩ := h
  exact List.dropWhile_cons_of_neg (by simp [h₁, h₂, h₃, h₄])

theorem opens_of_isDigit {c : Char} (h : c.isDigit = true) : Opens c := by
  refine ⟨?_, ?_, ?_, ?_, ?_⟩ <;>
    (rintro rfl
     exact absurd h (by decide))

theorem integerChars_cons (n : ℤ) :
    ∃ c cs, integerChars n = c :: cs ∧ (c.isDigit = true ∨ c = '-') := by
  rw [integerChars]
  split
  · exact ⟨_, _, rfl, .inr rfl⟩
  · obtain ⟨hne, hds⟩ := digitsOf_isDigits n.natAbs
    obtain ⟨c, cs, h⟩ := List.exists_cons_of_ne_nil hne
    exact ⟨c, cs, h, .inl (hds c (by simp [h]))⟩

theorem real_chars_cons {x : Float} (hx : x.isFinite = true) :
    ∃ c cs, Layout.json.chars x = c :: cs ∧ (c.isDigit = true ∨ c = '-') := by
  rw [chars_of_isFinite .json hx]
  split
  · exact ⟨_, _, rfl, .inr rfl⟩
  · obtain ⟨⟨hne, hds⟩, -⟩ := numeralOf_wellFormed x
    obtain ⟨c, cs, h⟩ := List.exists_cons_of_ne_nil hne
    have hchars : (numeralOf x).chars = c :: (cs ++ (Numeral.fractionChars (numeralOf x).fraction ++
        Numeral.exponentChars (numeralOf x).exponent)) := by
      rw [Numeral.chars, h, List.cons_append]
    exact ⟨c, _, hchars, .inl (hds c (by simp [h]))⟩

theorem opens_of_number {c : Char} (h : c.isDigit = true ∨ c = '-') : Opens c := by
  rcases h with h | rfl
  · exact opens_of_isDigit h
  · decide

theorem chars_cons (v : Value) (hv : v.Legible) : ∃ c cs, v.chars = c :: cs ∧ Opens c := by
  cases v with
  | null => exact ⟨_, _, rfl, by decide⟩
  | boolean b => cases b <;> exact ⟨_, _, rfl, by decide⟩
  | integer n =>
    obtain ⟨c, cs, h, hc⟩ := integerChars_cons n
    exact ⟨c, cs, by rw [Value.chars, h], opens_of_number hc⟩
  | real x =>
    obtain ⟨hx, -⟩ := hv
    obtain ⟨c, cs, h, hc⟩ := real_chars_cons hx
    exact ⟨c, cs, by rw [Value.chars, if_pos hx, h], opens_of_number hc⟩
  | string s => exact ⟨_, _, rfl, by decide⟩
  | array items => exact ⟨_, _, rfl, by decide⟩
  | object members => exact ⟨_, _, rfl, by decide⟩

/-! ## Values -/

/-- What stands behind a value in a document: nothing, a comma or the end of what holds it. -/
def EndsValue (cs : List Char) : Prop := ∀ c ∈ cs.head?, c = ',' ∨ c = ']' ∨ c = '\x7d'

theorem EndsValue.endsNumber {cs : List Char} (h : EndsValue cs) : EndsNumber cs := by
  intro c hc
  rcases h c hc with rfl | rfl | rfl <;> decide

theorem endsValue_cons {c : Char} (h : c = ',' ∨ c = ']' ∨ c = '\x7d') (cs : List Char) :
    EndsValue (c :: cs) := by
  intro d hd
  obtain rfl := Option.some.inj hd
  exact h

theorem commas_cons_cons (a b : List Char) (cs : List (List Char)) :
    commas (a :: b :: cs) = a ++ ',' :: commas (b :: cs) := by
  simp [commas, List.intercalate]

theorem commas_singleton (a : List Char) : commas [a] = a := by
  simp [commas, List.intercalate]

theorem commas_itemChars_cons (v : Value) (vs : List Value) (hv : Value.ItemsLegible (v :: vs)) :
    ∃ c cs, commas (Value.itemChars (v :: vs)) = c :: cs ∧ Opens c := by
  obtain ⟨c, cs, h, hc⟩ := chars_cons v hv.1
  cases vs with
  | nil => exact ⟨c, cs, by rw [Value.itemChars, Value.itemChars, commas_singleton, h], hc⟩
  | cons w vs =>
    refine ⟨c, cs ++ ',' :: commas (Value.itemChars (w :: vs)), ?_, hc⟩
    rw [Value.itemChars, Value.itemChars, commas_cons_cons, h, List.cons_append]

theorem commas_memberChars_cons (k : String) (v : Value) (ms : List (String × Value)) :
    ∃ cs, commas (Value.memberChars ((k, v) :: ms)) = '"' :: cs := by
  cases ms with
  | nil => exact ⟨_, commas_singleton _⟩
  | cons m ms => exact ⟨_, commas_cons_cons _ _ _⟩

theorem scanMembers_more (k : String) {s : Scan} {fuel : ℕ} {cs rest : List Char}
    (h : scanValue fuel cs = (s, some (',' :: rest))) :
    scanMembers (fuel + 1) (stringChars k ++ ':' :: cs) =
      ((some k, s) :: (scanMembers fuel rest).1, (scanMembers fuel rest).2) := by
  rw [stringChars_append, scanMembers, skipBlanks_cons (by decide)]
  simp only [scanString_escaped]
  rw [skipBlanks_cons (by decide)]
  simp only [h]
  rw [skipBlanks_cons (by decide)]
  rfl

theorem scanMembers_last (k : String) {s : Scan} {fuel : ℕ} {cs rest : List Char}
    (h : scanValue fuel cs = (s, some ('\x7d' :: rest))) :
    scanMembers (fuel + 1) (stringChars k ++ ':' :: cs) = ([(some k, s)], some rest) := by
  rw [stringChars_append, scanMembers, skipBlanks_cons (by decide)]
  simp only [scanString_escaped]
  rw [skipBlanks_cons (by decide)]
  simp only [h]
  rw [skipBlanks_cons (by decide)]
  rfl

theorem scanValue_number {c : Char} (h : c.isDigit = true ∨ c = '-') (fuel : ℕ) {s : Scan}
    {cs rest : List Char} (hs : scanNumber (c :: cs) = some (s, rest)) :
    scanValue (fuel + 1) (c :: cs) = (s, some rest) := by
  have hne : ∀ d, d.isDigit = false → d ≠ '-' → c ≠ d := by
    rintro d hd hminus rfl
    rcases h with h | h
    · exact absurd h (by simp [hd])
    · exact hminus h
  rw [scanValue, skipBlanks_cons (opens_of_number h)]
  split
  all_goals first
    | rename_i heq
      exact absurd (List.cons.inj heq).1 (hne _ (by decide) (by decide))
    | skip
  rw [hs]

mutual

/-- **A value is scanned from its text**, whatever stands behind it, in as many steps as twice its
length. -/
theorem scanValue_chars : ∀ v : Value, v.Legible → ∀ (fuel : ℕ) (rest : List Char),
    EndsValue rest → 2 * v.chars.length ≤ fuel →
      scanValue fuel (v.chars ++ rest) = (v.scan, some rest)
  | v, hv, 0, rest, _, hfuel => by
    obtain ⟨c, cs, h, -⟩ := chars_cons v hv
    rw [h] at hfuel
    simp at hfuel
  | .null, _, fuel + 1, rest, _, _ => rfl
  | .boolean true, _, fuel + 1, rest, _, _ => rfl
  | .boolean false, _, fuel + 1, rest, _, _ => rfl
  | .integer n, ⟨hlo, hhi⟩, fuel + 1, rest, hrest, _ => by
    have hscan := scanNumber_integer hlo hhi hrest.endsNumber
    obtain ⟨c, cs, h, hc⟩ := integerChars_cons n
    rw [Value.chars, Value.scan]
    rw [h, List.cons_append] at hscan ⊢
    exact scanValue_number hc fuel hscan
  | .real x, ⟨hx, hread⟩, fuel + 1, rest, hrest, _ => by
    have hscan := scanNumber_real hx hread hrest.endsNumber
    obtain ⟨c, cs, h, hc⟩ := real_chars_cons hx
    rw [Value.chars, if_pos hx, Value.scan]
    rw [h, List.cons_append] at hscan ⊢
    exact scanValue_number hc fuel hscan
  | .string s, _, fuel + 1, rest, _, _ => by
    rw [Value.chars, stringChars_append, scanValue, skipBlanks_cons (by decide)]
    simp only [scanString_escaped]
    rfl
  | .array [], _, fuel + 1, rest, _, _ => rfl
  | .array (v :: vs), hv, fuel + 1, rest, _, hfuel => by
    have hlength : 2 * (commas (Value.itemChars (v :: vs))).length < fuel := by
      simp only [Value.chars, List.length_cons, List.length_append, List.length_nil] at hfuel
      omega
    have hscan := scanItems_chars v vs hv fuel rest hlength
    obtain ⟨c, cs, h, hc⟩ := commas_itemChars_cons v vs hv
    have hbracket : (Value.array (v :: vs)).chars ++ rest =
        '[' :: (commas (Value.itemChars (v :: vs)) ++ ']' :: rest) := by
      simp [Value.chars]
    rw [hbracket, scanValue, skipBlanks_cons (by decide)]
    simp only
    rw [h, List.cons_append] at hscan ⊢
    rw [skipBlanks_cons hc]
    split
    · rename_i heq
      exact absurd (List.cons.inj heq).1 hc.2.2.2.2
    · rw [hscan]
      rfl
  | .object [], _, fuel + 1, rest, _, _ => rfl
  | .object ((k, v) :: ms), hv, fuel + 1, rest, _, hfuel => by
    have hlength : 2 * (commas (Value.memberChars ((k, v) :: ms))).length < fuel := by
      simp only [Value.chars, List.length_cons, List.length_append, List.length_nil] at hfuel
      omega
    have hscan := scanMembers_chars k v ms hv fuel rest hlength
    obtain ⟨cs, h⟩ := commas_memberChars_cons k v ms
    have hbrace : (Value.object ((k, v) :: ms)).chars ++ rest =
        '\x7b' :: (commas (Value.memberChars ((k, v) :: ms)) ++ '\x7d' :: rest) := by
      simp [Value.chars]
    rw [hbrace, scanValue, skipBlanks_cons (by decide)]
    simp only
    rw [h, List.cons_append] at hscan ⊢
    rw [skipBlanks_cons (by decide)]
    split
    · rename_i heq
      exact absurd (List.cons.inj heq).1 (by decide)
    · rw [hscan]
      rfl

theorem scanItems_chars : ∀ (v : Value) (vs : List Value), Value.ItemsLegible (v :: vs) →
    ∀ (fuel : ℕ) (rest : List Char),
      2 * (commas (Value.itemChars (v :: vs))).length < fuel →
        scanItems fuel (commas (Value.itemChars (v :: vs)) ++ ']' :: rest) =
          (Value.itemScans (v :: vs), some rest)
  | v, vs, hv, 0, rest, hfuel => by omega
  | v, [], hv, fuel + 1, rest, hfuel => by
    rw [Value.itemChars, Value.itemChars, commas_singleton] at *
    rw [scanItems, scanValue_chars v hv.1 fuel _ (endsValue_cons (.inr (.inl rfl)) rest) (by omega)]
    rfl
  | v, w :: vs, hv, fuel + 1, rest, hfuel => by
    have hcommas : commas (Value.itemChars (v :: w :: vs)) =
        v.chars ++ ',' :: commas (Value.itemChars (w :: vs)) := commas_cons_cons _ _ _
    rw [hcommas] at hfuel ⊢
    simp only [List.length_append, List.length_cons] at hfuel
    rw [List.append_assoc, List.cons_append, scanItems,
      scanValue_chars v hv.1 fuel _ (endsValue_cons (.inl rfl) _) (by omega)]
    simp only
    rw [skipBlanks_cons (by decide)]
    simp only
    rw [scanItems_chars w vs hv.2 fuel rest (by omega)]
    rfl

theorem scanMembers_chars : ∀ (k : String) (v : Value) (ms : List (String × Value)),
    Value.MembersLegible ((k, v) :: ms) → ∀ (fuel : ℕ) (rest : List Char),
      2 * (commas (Value.memberChars ((k, v) :: ms))).length < fuel →
        scanMembers fuel (commas (Value.memberChars ((k, v) :: ms)) ++ '\x7d' :: rest) =
          (Value.memberScans ((k, v) :: ms), some rest)
  | k, v, ms, hv, 0, rest, hfuel => by omega
  | k, v, [], hv, fuel + 1, rest, hfuel => by
    have hcommas : commas (Value.memberChars [(k, v)]) = stringChars k ++ ':' :: v.chars :=
      commas_singleton _
    rw [hcommas] at hfuel ⊢
    simp only [List.length_append, List.length_cons] at hfuel
    have hvalue := scanValue_chars v hv.1 fuel _ (endsValue_cons (.inr (.inr rfl)) rest) (by omega)
    rw [List.append_assoc, List.cons_append, scanMembers_last k hvalue]
    rfl
  | k, v, (k', w) :: ms, hv, fuel + 1, rest, hfuel => by
    have hcommas : commas (Value.memberChars ((k, v) :: (k', w) :: ms)) =
        stringChars k ++ ':' :: v.chars ++ ',' :: commas (Value.memberChars ((k', w) :: ms)) :=
      commas_cons_cons _ _ _
    rw [hcommas] at hfuel ⊢
    simp only [List.length_append, List.length_cons] at hfuel
    have hvalue := scanValue_chars v hv.1 fuel
      (',' :: (commas (Value.memberChars ((k', w) :: ms)) ++ '\x7d' :: rest))
      (endsValue_cons (.inl rfl) _) (by omega)
    rw [List.append_assoc, List.append_assoc, List.cons_append, List.cons_append,
      scanMembers_more k hvalue, scanMembers_chars k' w ms hv.2 fuel rest (by omega)]
    rfl

end

/-- **The text of a document is scanned as the document**, and nothing is left of it. -/
theorem scan_render {v : Value} (hv : v.Legible) : Json.scan v.render = (v.scan, true) := by
  have h := scanValue_chars v hv (2 * v.chars.length + 2) [] nofun (by omega)
  rw [List.append_nil] at h
  rw [Json.scan, Value.render, String.toList_ofList]
  simp only [h]
  rfl

end HpGl.Json
