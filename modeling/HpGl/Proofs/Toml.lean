import HpGl.Proofs.Comparison
import HpGl.Proofs.ReadBack
import HpGl.Toml.Read

/-!
# Lines of a TOML text

A key and a value that stand on a line are read as they were written, whatever follows on the next
lines. A number is not taken for a date or for a time, and one without a fraction is an integer.

* `scanDigits_append`: a run of digits.
* `skipMoment?_of_digits`, `skipMoment?_of_not_digit`: what is neither a date nor a time.
* **`scanDecimal_numeral`**, **`scanScalar_numeral`**: the numbers of a text.
* `Scalar`: what is scanned at the end of a line; `Scalar.boolean`, `Scalar.integer`,
  **`Scalar.float`**.
* `IsBare`, `scanKey_bare`: keys without quotes.
* `Scans`: what is scanned for a line; `Scans.header`, **`Scans.assign`**.
* **`scanLinesUpTo_flatMap`**: all lines of a text.
-/

namespace HpGl.Toml

/-! ## Digits -/

/-- A run of digits does not go on here. -/
def EndsRun (cs : List Char) : Prop := ∀ c ∈ cs.head?, c.isDigit = false ∧ c ≠ '_'

theorem endsRun_cons {c : Char} {cs : List Char} (h : c.isDigit = false) (h' : c ≠ '_') :
    EndsRun (c :: cs) := forall_mem_head?_cons ⟨h, h'⟩

theorem scanDigits_append {ds rest : List Char} (hne : ds ≠ []) (hds : ∀ c ∈ ds, c.isDigit = true)
    (hr : EndsRun rest) : scanDigits Char.isDigit (ds ++ rest) = some (ds, rest) := by
  induction ds with
  | nil => exact absurd rfl hne
  | cons c ds ih =>
    obtain ⟨hc, hds⟩ := List.forall_mem_cons.mp hds
    rw [List.cons_append, scanDigits.eq_def]
    simp only [if_pos hc]
    cases ds with
    | nil =>
      cases rest with
      | nil => rfl
      | cons d rest =>
        obtain ⟨hd, hd'⟩ := hr d rfl
        simp [hd, hd']
    | cons d ds =>
      have hd : d.isDigit = true := hds d List.mem_cons_self
      have hd' : d ≠ '_' := by
        rintro rfl
        exact absurd hd (by decide)
      have ih := ih (List.cons_ne_nil d ds) hds
      rw [List.cons_append] at ih
      simp only [List.cons_append, if_neg hd', if_pos hd, ih]
      rfl

/-! ## Neither dates nor times -/

theorem skipMoment?_of_not_digit {c : Char} {cs : List Char} (h : c.isDigit = false) :
    skipMoment? (c :: cs) = none := by
  have hdate : startsDate? (c :: cs) = none := by
    unfold startsDate?
    split
    · rename_i heq
      obtain ⟨rfl, -⟩ := List.cons.inj heq
      rw [if_neg]
      simp [h]
    · rfl
  have htime : startsTime (c :: cs) = false := by
    unfold startsTime
    split
    · rename_i heq
      obtain ⟨rfl, -⟩ := List.cons.inj heq
      simp [h]
    · rfl
  rw [skipMoment?, hdate, htime]
  rfl

theorem skipMoment?_of_digits {ds rest : List Char} (hds : ∀ c ∈ ds, c.isDigit = true)
    (hr : ∀ c ∈ rest.head?, c.isDigit = false ∧ c ≠ '-' ∧ c ≠ ':') :
    skipMoment? (ds ++ rest) = none := by
  have hstop : StopsDigits rest := fun c hc => (hr c hc).1
  have htake := takeDigits_append hds hstop
  have hdate : startsDate? (ds ++ rest) = none := by
    unfold startsDate?
    split
    · rename_i a b c d cs heq
      split
      · rename_i hall
        have htake' : takeDigits ([a, b, c, d] ++ '-' :: cs) = _ :=
          takeDigits_append (List.all_eq_true.mp hall) (stopsDigits_cons (by decide))
        rw [List.cons_append, List.cons_append, List.cons_append, List.singleton_append, ← heq,
          htake] at htake'
        obtain ⟨-, rfl⟩ := Prod.mk.inj htake'
        exact absurd rfl (hr '-' rfl).2.1
      · rfl
    · rfl
  have htime : startsTime (ds ++ rest) = false := by
    unfold startsTime
    split
    · rename_i a b cs heq
      rw [Bool.eq_false_iff]
      intro hall
      have hall : ∀ c ∈ [a, b], c.isDigit = true := by simpa using hall
      have htake' : takeDigits ([a, b] ++ ':' :: cs) = _ :=
        takeDigits_append hall (stopsDigits_cons (by decide))
      rw [List.cons_append, List.singleton_append, ← heq, htake] at htake'
      obtain ⟨-, rfl⟩ := Prod.mk.inj htake'
      exact absurd rfl (hr ':' rfl).2.2
    · rfl
  rw [skipMoment?, hdate, htime]
  rfl

/-! ## Numbers -/

section Numbers

variable {negative : Bool} {n : Numeral}

/-- The text of a number without an exponent, at the end of a line. -/
def lineChars (n : Numeral) (rest : List Char) : List Char :=
  n.whole ++ (Numeral.fractionChars n.fraction ++ '\n' :: rest)

theorem endsRun_fraction (f : Option (List Char)) (rest : List Char) :
    EndsRun (Numeral.fractionChars f ++ '\n' :: rest) := by
  cases f with
  | none => exact endsRun_cons (by decide) (by decide)
  | some ds => exact endsRun_cons (by decide) (by decide)

theorem scanFraction_chars {f : Option (List Char)} (hf : ∀ ds ∈ f, IsDigits ds)
    (rest : List Char) :
    scanFraction (Numeral.fractionChars f ++ '\n' :: rest) = some (f, '\n' :: rest) := by
  cases f with
  | none => rfl
  | some ds =>
    obtain ⟨hne, hds⟩ := hf ds rfl
    have hend : EndsRun ('\n' :: rest) := endsRun_cons (by decide) (by decide)
    have hscan := scanDigits_append hne hds hend
    simp only [Numeral.fractionChars, List.cons_append, scanFraction, hscan]
    rfl

/-- **A number after its sign**: an integer if it has no fraction, else a double. -/
theorem scanDecimal_numeral (hn : n.WellFormed) (hc : n.Canonical) (he : n.exponent = none)
    (rest : List Char) :
    scanDecimal negative (lineChars n rest) =
      (if n.fraction = none then
        integer? (if negative then -(Decimal.valueOf n.whole : ℤ) else Decimal.valueOf n.whole)
      else float? negative n.decimal).map (·, '\n' :: rest) := by
  have hwhole := scanDigits_append hn.whole.1 hn.whole.2 (endsRun_fraction n.fraction rest)
  have hfraction := scanFraction_chars hn.fraction rest
  have hexponent : scanExponent ('\n' :: rest) = some (none, '\n' :: rest) := rfl
  have hzero : ¬ (n.whole.head? = some '0' ∧ n.whole ≠ ['0']) := fun h => h.2 (hc h.1)
  rw [scanDecimal, lineChars]
  simp only [hwhole, Option.bind_eq_bind, Option.bind_some, if_neg hzero, hfraction, hexponent]
  rw [Numeral.decimal, he]
  simp only [and_true]
  split <;> exact Option.map_eq_bind.symm

theorem lineChars_eq_cons (hn : n.WellFormed) (rest : List Char) :
    ∃ c cs, lineChars n rest = c :: cs ∧ c.isDigit = true ∧
      ∀ d ∈ cs.head?, d ≠ 'x' ∧ d ≠ 'o' ∧ d ≠ 'b' := by
  obtain ⟨hne, hds⟩ := hn.whole
  have hletter {d : Char} (hd : d.isDigit = true) : d ≠ 'x' ∧ d ≠ 'o' ∧ d ≠ 'b' := by
    refine ⟨?_, ?_, ?_⟩ <;> (rintro rfl; exact absurd hd (by decide))
  rw [lineChars]
  cases hw : n.whole with
  | nil => exact absurd hw hne
  | cons c ds =>
    rw [hw] at hds
    refine ⟨c, _, rfl, hds c List.mem_cons_self, ?_⟩
    cases ds with
    | nil =>
      cases n.fraction with
      | none => exact forall_mem_head?_cons (by decide)
      | some es => exact forall_mem_head?_cons (by decide)
    | cons d ds => exact forall_mem_head?_cons (hletter (hds d (by simp)))

theorem scanNumber_of_digit {c : Char} {cs : List Char} (hc : c.isDigit = true)
    (hcs : ∀ d ∈ cs.head?, d ≠ 'x' ∧ d ≠ 'o' ∧ d ≠ 'b') :
    scanNumber ((if negative then ['-'] else []) ++ c :: cs) = scanDecimal negative (c :: cs) := by
  have hword : c ≠ 'i' ∧ c ≠ 'n' := by
    constructor <;> (rintro rfl; exact absurd hc (by decide))
  have hbase {d : Char} {cs' : List Char}
      (h : (if negative then ['-'] else []) ++ c :: cs = '0' :: d :: cs') : d ∈ cs.head? := by
    cases negative with
    | true => exact absurd (List.cons.inj h).1 (by decide)
    | false =>
      obtain ⟨-, rfl⟩ := List.cons.inj h
      rfl
  unfold scanNumber
  split
  · rename_i heq
    exact absurd rfl (hcs 'x' (hbase heq)).1
  · rename_i heq
    exact absurd rfl (hcs 'o' (hbase heq)).2.1
  · rename_i heq
    exact absurd rfl (hcs 'b' (hbase heq)).2.2
  · rw [takeSign_of_digit hc]
    simp only
    split
    · rename_i heq
      exact absurd (List.cons.inj heq).1 hword.1
    · rename_i heq
      exact absurd (List.cons.inj heq).1 hword.2
    · rfl

theorem skipMoment?_numeral (hn : n.WellFormed) (rest : List Char) :
    skipMoment? ((if negative then ['-'] else []) ++ lineChars n rest) = none := by
  cases negative with
  | true => exact skipMoment?_of_not_digit (by decide)
  | false =>
    rw [if_neg Bool.false_ne_true, List.nil_append, lineChars]
    refine skipMoment?_of_digits hn.whole.2 ?_
    cases n.fraction with
    | none => exact forall_mem_head?_cons (by decide)
    | some ds => exact forall_mem_head?_cons (by decide)

/-- Only four characters begin anything but a number, a date or a time. -/
theorem scanScalar_eq_scanNumeral {c : Char} {cs : List Char} (h : c ∉ ['"', '\'', 't', 'f']) :
    scanScalar (c :: cs) = scanNumeral (c :: cs) := by
  simp only [List.mem_cons, List.not_mem_nil, or_false, not_or] at h
  obtain ⟨h₁, h₂, h₃, h₄⟩ := h
  unfold scanScalar
  split
  · rename_i heq
    exact absurd (List.cons.inj heq).1 h₁
  · rename_i heq
    exact absurd (List.cons.inj heq).1 h₂
  · rename_i heq
    exact absurd (List.cons.inj heq).1 h₃
  · rename_i heq
    exact absurd (List.cons.inj heq).1 h₄
  · rfl

theorem scanScalar_numeral (hn : n.WellFormed) (hc : n.Canonical) (he : n.exponent = none)
    (rest : List Char) :
    scanScalar ((if negative then ['-'] else []) ++ lineChars n rest) =
      (if n.fraction = none then
        integer? (if negative then -(Decimal.valueOf n.whole : ℤ) else Decimal.valueOf n.whole)
      else float? negative n.decimal).map (·, '\n' :: rest) := by
  have hmoment : skipMoment? ((if negative then ['-'] else []) ++ lineChars n rest) = none :=
    skipMoment?_numeral hn rest
  obtain ⟨c, cs, heq, hdigit, hcs⟩ := lineChars_eq_cons hn rest
  have hhead : ∃ d ds, (if negative then ['-'] else []) ++ c :: cs = d :: ds ∧
      d ∉ ['"', '\'', 't', 'f'] := by
    cases negative with
    | true => exact ⟨'-', _, rfl, by decide⟩
    | false =>
      refine ⟨c, cs, rfl, ?_⟩
      intro hmem
      simp only [List.mem_cons, List.not_mem_nil, or_false] at hmem
      rcases hmem with rfl | rfl | rfl | rfl <;> exact absurd hdigit (by decide)
  obtain ⟨d, ds, hd, hmem⟩ := hhead
  rw [← scanDecimal_numeral hn hc he rest]
  rw [heq] at hmoment ⊢
  rw [hd, scanScalar_eq_scanNumeral hmem, ← hd, scanNumeral, hmoment]
  exact scanNumber_of_digit hdigit hcs

end Numbers

/-! ## Values -/

/-- **A value at the end of a line.** It begins with no blank and opens neither an array nor a
table. -/
structure Scalar (cs : List Char) (i : Item) : Prop where
  head : ∃ c ds, cs = c :: ds ∧ isBlank c = false ∧ c ≠ '[' ∧ c ≠ '\x7b'
  scan : ∀ rest, scanScalar (cs ++ '\n' :: rest) = some (i, '\n' :: rest)

theorem Scalar.boolean (b : Bool) :
    Scalar (if b then "true".toList else "false".toList) (.boolean b) := by
  cases b with
  | true => exact ⟨⟨'t', _, rfl, by decide, by decide, by decide⟩, fun _ => rfl⟩
  | false => exact ⟨⟨'f', _, rfl, by decide, by decide, by decide⟩, fun _ => rfl⟩

theorem head_numeral {negative : Bool} {n : Numeral} (hn : n.WellFormed) :
    ∃ c ds, (if negative then ['-'] else []) ++ n.chars = c :: ds ∧
      isBlank c = false ∧ c ≠ '[' ∧ c ≠ '\x7b' := by
  obtain ⟨c, cs, hw⟩ := List.exists_cons_of_ne_nil hn.whole.1
  have hc : c.isDigit = true := hn.whole.2 c (hw ▸ List.mem_cons_self)
  cases negative with
  | true => exact ⟨'-', _, rfl, by decide, by decide, by decide⟩
  | false =>
    refine ⟨c, cs ++ (Numeral.fractionChars n.fraction ++ Numeral.exponentChars n.exponent), ?_, ?_⟩
    · rw [Numeral.chars, hw]
      rfl
    · refine ⟨Bool.eq_false_iff.mpr fun hblank => ?_, ?_, ?_⟩
      · simp only [isBlank, Bool.or_eq_true, decide_eq_true_eq] at hblank
        rcases hblank with rfl | rfl <;> exact absurd hc (by decide)
      · rintro rfl
        exact absurd hc (by decide)
      · rintro rfl
        exact absurd hc (by decide)

theorem scalar_numeral {negative : Bool} {n : Numeral} {i : Item} (hn : n.WellFormed)
    (hc : n.Canonical) (he : n.exponent = none)
    (hi : (if n.fraction = none then
        integer? (if negative then -(Decimal.valueOf n.whole : ℤ) else Decimal.valueOf n.whole)
      else float? negative n.decimal) = some i) :
    Scalar ((if negative then ['-'] else []) ++ n.chars) i := by
  refine ⟨head_numeral hn, fun rest => ?_⟩
  have hchars : n.chars ++ '\n' :: rest = lineChars n rest := by
    rw [Numeral.chars, he, lineChars, Numeral.exponentChars, List.append_nil, List.append_assoc]
  rw [List.append_assoc, hchars, scanScalar_numeral hn hc he, hi, Option.map_some]

theorem Scalar.integer {n : ℤ} (hlo : -0x8000000000000000 ≤ n) (hhi : n < 0x8000000000000000) :
    Scalar (integerChars n) (.integer n) := by
  have hchars : integerChars n = (if decide (n < 0) then ['-'] else []) ++
      (⟨Decimal.digitsOf n.natAbs, none, none⟩ : Numeral).chars := by
    rw [integerChars, Numeral.chars]
    split <;> simp_all [Numeral.fractionChars, Numeral.exponentChars]
  rw [hchars]
  refine scalar_numeral ⟨digitsOf_isDigits _, fun _ h => absurd h (Option.not_mem_none _)⟩
    digitsOf_canonical rfl ?_
  rw [if_pos rfl, valueOf_digitsOf, Numeral.signed_natAbs, integer?, if_pos ⟨hlo, hhi⟩]

/-- In a profile every double has a fraction and no exponent. -/
theorem toml_numeral (d : Decimal) :
    (Layout.toml.numeral d).fraction ≠ none ∧ (Layout.toml.numeral d).exponent = none := by
  change (Layout.toml.pointedNumeral d).fraction ≠ none ∧
    (Layout.toml.pointedNumeral d).exponent = none
  simp only [Layout.pointedNumeral]
  split
  · exact ⟨Option.some_ne_none _, rfl⟩
  · split <;> exact ⟨Option.some_ne_none _, rfl⟩

theorem scalar_of_isFinite {x : Float} (hx : x.isFinite = true) :
    Scalar (Layout.toml.chars x) (.float x) := by
  obtain ⟨hfraction, hexponent⟩ := toml_numeral ((Binary.ofFloat x).shortest Layout.toml.tie)
  rw [chars_of_isFinite _ hx]
  refine scalar_numeral (Layout.numeral_wellFormed _ _) (numeral_shortest_canonical _ _ _)
    hexponent ?_
  rw [if_neg hfraction, float?, toFloat_numeral _ _ hx, isInf_of_isFinite hx]
  rfl

theorem scanScalar_word {c : Char} {cs : List Char} (hc : c.isDigit = false)
    (h : c ∉ ['"', '\'', 't', 'f']) : scanScalar (c :: cs) = scanNumber (c :: cs) := by
  rw [scanScalar_eq_scanNumeral h, scanNumeral, skipMoment?_of_not_digit hc]

theorem scalar_infinite (negative : Bool) :
    Scalar ((if negative then ['-'] else []) ++ "inf".toList)
      (.float (infiniteFloat negative)) := by
  cases negative with
  | true =>
    exact ⟨⟨'-', _, rfl, by decide, by decide, by decide⟩,
      fun _ => scanScalar_word (by decide) (by decide)⟩
  | false =>
    exact ⟨⟨'i', _, rfl, by decide, by decide, by decide⟩,
      fun _ => scanScalar_word (by decide) (by decide)⟩

/-- **A double** is scanned as it was written, be it finite or not. -/
theorem Scalar.float (x : Float) : Scalar (Layout.toml.chars x) (.float x) := by
  by_cases hfin : x.isFinite = true
  · exact scalar_of_isFinite hfin
  cases hnan : x.isNaN with
  | true =>
    rw [Layout.chars, if_pos hnan, Binary.eq_nanFloat hnan]
    exact ⟨⟨'n', _, rfl, by decide, by decide, by decide⟩,
      fun _ => scanScalar_word (by decide) (by decide)⟩
  | false =>
    have hinf := isInf_of_not_isFinite hfin hnan
    have heq := Binary.eq_infiniteFloat hinf
    rw [Layout.chars, if_neg (Bool.eq_false_iff.mp hnan)]
    simp only [if_pos hinf]
    have h := scalar_infinite (Binary.signBit x)
    rwa [← heq] at h

/-! ## Keys -/

/-- A key that needs no quotes. -/
structure IsBare (key : String) : Prop where
  ne_nil : key.toList ≠ []
  bare : key.toList.all isBareKey = true

theorem skipBlanks_cons {c : Char} {cs : List Char} (h : isBlank c = false) :
    skipBlanks (c :: cs) = c :: cs := List.dropWhile_cons_of_neg (by simp [h])

theorem skipLineEnd?_cons {c : Char} {cs : List Char} (h : isBlank c = false)
    (hc : c ∉ ['#', '\n', '\r']) : skipLineEnd? (c :: cs) = none := by
  simp only [List.mem_cons, List.not_mem_nil, or_false, not_or] at hc
  obtain ⟨hcomment, hn, hr⟩ := hc
  rw [skipLineEnd?, skipBlanks_cons h]
  split
  · rename_i heq
    exact absurd (List.cons.inj heq).1 hcomment
  · rw [if_neg (List.cons_ne_nil c cs), skipBreak?]
    · intro cs' heq
      exact hn (List.cons.inj heq).1
    · intro cs' heq
      exact hr (List.cons.inj heq).1

section Keys

variable {key : String} {rest : List Char}

theorem IsBare.exists_cons (hk : IsBare key) : ∃ c cs, key.toList = c :: cs ∧
    isBareKey c = true ∧ isBlank c = false ∧ c ∉ ['[', '"', '\'', '#', '\n', '\r'] := by
  obtain ⟨c, cs, hkey⟩ := List.exists_cons_of_ne_nil hk.ne_nil
  have hc : isBareKey c = true :=
    List.all_eq_true.mp hk.bare c (hkey ▸ List.mem_cons_self)
  have hne {d : Char} (hd : isBareKey d = false) : c ≠ d :=
    ne_of_apply_ne isBareKey (by simp [hc, hd])
  refine ⟨c, cs, hkey, hc, ?_, ?_⟩
  · simp [isBlank, hne (d := ' ') (by decide), hne (d := '\t') (by decide)]
  · intro hmem
    simp only [List.mem_cons, List.not_mem_nil, or_false] at hmem
    rcases hmem with rfl | rfl | rfl | rfl | rfl | rfl <;> exact absurd hc (by decide)

theorem scanSimpleKey_bare (hk : IsBare key) (hr : ∀ c ∈ rest.head?, isBareKey c = false) :
    scanSimpleKey (key.toList ++ rest) = some (key, rest) := by
  have hspan := span_append (List.all_eq_true.mp hk.bare) hr
  obtain ⟨c, cs, hkey, -, -, hc⟩ := hk.exists_cons
  simp only [List.mem_cons, List.not_mem_nil, or_false, not_or] at hc
  unfold scanSimpleKey
  split
  · rename_i heq
    rw [hkey] at heq
    exact absurd (List.cons.inj heq).1 hc.2.1
  · rename_i heq
    rw [hkey] at heq
    exact absurd (List.cons.inj heq).1 hc.2.2.1
  · rw [hspan]
    simp only
    rw [if_neg hk.ne_nil, String.ofList_toList]

theorem scanKey_bare (hk : IsBare key) (hr : ∀ c ∈ rest.head?, isBareKey c = false)
    (hdot : ∀ cs, skipBlanks rest ≠ '.' :: cs) :
    scanKey (key.toList ++ rest) = some (⟨[], key⟩, skipBlanks rest) := by
  have hsimple := scanSimpleKey_bare hk hr
  obtain ⟨c, cs, hkey, -, hblank, -⟩ := hk.exists_cons
  rw [hkey, List.cons_append] at hsimple ⊢
  rw [scanKey, limit, scanKeyUpTo, skipBlanks_cons hblank, hsimple]
  simp only [Option.bind_eq_bind, Option.bind_some]
  rfl

end Keys

/-! ## Lines -/

/-- **What is scanned for a line**, whatever follows it. -/
structure Scans (cs : List Char) (l : Line) : Prop where
  ne_nil : cs ≠ []
  scan : ∀ rest, scanLine (cs ++ rest) = some (l, rest)

theorem Scans.blank : Scans ['\n'] .blank := ⟨by decide, fun _ => rfl⟩

theorem Scans.header {key : String} (hk : IsBare key) :
    Scans ('[' :: (key.toList ++ [']', '\n'])) (.table ⟨[], key⟩) := by
  refine ⟨List.cons_ne_nil _ _, fun rest => ?_⟩
  have hend : ∀ c ∈ (']' :: '\n' :: rest).head?, isBareKey c = false :=
    forall_mem_head?_cons (by decide)
  have hkey := scanKey_bare hk hend nofun
  obtain ⟨c, cs, hcons, -, -, hc⟩ := hk.exists_cons
  simp only [List.mem_cons, not_or] at hc
  rw [List.cons_append, List.append_assoc, List.cons_append, List.singleton_append, scanLine,
    skipLineEnd?_cons (by decide) (by decide), skipBlanks_cons (by decide)]
  rw [hcons, List.cons_append] at hkey ⊢
  dsimp only
  split
  · rename_i heq
    exact absurd (List.cons.inj (List.cons.inj heq).2).1 hc.1
  · rename_i heq
    obtain ⟨-, rfl⟩ := List.cons.inj heq
    rw [hkey]
    rfl
  · rename_i h
    exact absurd rfl (h _)

theorem Scalar.scanValue {value : List Char} {i : Item} (hv : Scalar value i) (fuel room : ℕ)
    (rest : List Char) :
    Toml.scanValue (fuel + 1) room (value ++ '\n' :: rest) = some (i, '\n' :: rest) := by
  have hscan := hv.scan rest
  obtain ⟨v, vs, rfl, -, harray, htable⟩ := hv.head
  rw [← hscan, List.cons_append, Toml.scanValue]
  · exact fun cs h => harray (List.cons.inj h).1
  · exact fun cs h => htable (List.cons.inj h).1

theorem Scalar.skipBlanks {value : List Char} {i : Item} (hv : Scalar value i) (rest : List Char) :
    Toml.skipBlanks (' ' :: (value ++ rest)) = value ++ rest := by
  obtain ⟨v, vs, rfl, hblank, -, -⟩ := hv.head
  exact skipBlanks_cons hblank

theorem Scans.assign {key : String} {value : List Char} {i : Item} (hk : IsBare key)
    (hv : Scalar value i) :
    Scans (key.toList ++ ' ' :: '=' :: ' ' :: (value ++ ['\n'])) (.assign ⟨[], key⟩ i) := by
  refine ⟨by simp [hk.ne_nil], fun rest => ?_⟩
  have hend : ∀ c ∈ (' ' :: '=' :: ' ' :: (value ++ '\n' :: rest)).head?, isBareKey c = false :=
    forall_mem_head?_cons (by decide)
  have hkey := scanKey_bare hk hend fun cs h => absurd (List.cons.inj h).1 (by decide)
  have hequals : skip? '=' (skipBlanks (' ' :: '=' :: ' ' :: (value ++ '\n' :: rest))) =
    some (' ' :: (value ++ '\n' :: rest)) := rfl
  obtain ⟨c, cs, hcons, -, hblank, hc⟩ := hk.exists_cons
  simp only [List.mem_cons, not_or] at hc
  have htext : key.toList ++ ' ' :: '=' :: ' ' :: (value ++ ['\n']) ++ rest =
      key.toList ++ ' ' :: '=' :: ' ' :: (value ++ '\n' :: rest) := by simp
  rw [htext]
  rw [hcons, List.cons_append] at hkey ⊢
  rw [scanLine, skipLineEnd?_cons hblank (by simp [hc]), skipBlanks_cons hblank]
  dsimp only
  split
  · rename_i heq
    exact absurd (List.cons.inj heq).1 hc.1
  · rename_i heq
    exact absurd (List.cons.inj heq).1 hc.1
  · rw [hkey]
    simp only [Option.bind_eq_bind, Option.bind_some, hequals, hv.skipBlanks, hv.scanValue]
    rfl

/-- **The lines of a text** are scanned one by one. -/
theorem scanLinesUpTo_flatMap {ps : List (List Char × Line)} (h : ∀ p ∈ ps, Scans p.1 p.2)
    {fuel : ℕ} (hfuel : (ps.flatMap Prod.fst).length ≤ fuel) :
    scanLinesUpTo fuel (ps.flatMap Prod.fst) = some (ps.map Prod.snd) := by
  induction ps generalizing fuel with
  | nil =>
    cases fuel <;> rfl
  | cons p ps ih =>
    obtain ⟨hp, hps⟩ := List.forall_mem_cons.mp h
    obtain ⟨c, cs, hcs⟩ := List.exists_cons_of_ne_nil hp.ne_nil
    have hscan := hp.scan (ps.flatMap Prod.fst)
    rw [List.flatMap_cons] at hfuel ⊢
    rw [hcs, List.cons_append] at hscan hfuel ⊢
    cases fuel with
    | zero => exact absurd hfuel (by simp)
    | succ fuel =>
      have hle : (ps.flatMap Prod.fst).length ≤ fuel := by
        simp only [List.length_cons, List.length_append] at hfuel
        omega
      rw [scanLinesUpTo, hscan]
      simp only [Option.bind_eq_bind, Option.bind_some, ih hps hle]
      rfl

end HpGl.Toml
