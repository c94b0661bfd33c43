import Mathlib
import HpGl.Proofs.Rounding

/-!
# Numbers read back

The digits that are written for a double lie in its interval, and a text has the value of its
digits wherever the point stands. So every finite double, written in any format, is read as itself.

* `Binary.readsBack_iff`, **`Binary.shortest_rounds`**: the digits are in the interval.
* `Numeral`: digits, a fraction and an exponent, as they stand in a text; `Layout.numeral`.
* `Layout.decimal_numeral_value`: all formats keep the value.
* **`readFloat?_render`**: every format reads back.
-/

namespace HpGl

/-! ## The digits -/

namespace Decimal

theorem value_eq_zero {d : Decimal} : d.value = 0 ↔ d.digits = 0 := by
  have hp : (10 : ℚ) ^ d.exponent ≠ 0 := zpow_ne_zero _ (by norm_num)
  simp [value, hp]

theorem stripUpTo_value (fuel : ℕ) (d : Decimal) : (stripUpTo fuel d).value = d.value := by
  induction fuel generalizing d with
  | zero => rfl
  | succ fuel ih =>
    rw [stripUpTo]
    split
    · rename_i h
      have hdigits : (d.digits : ℚ) = (d.digits / 10 : ℕ) * 10 := by
        exact_mod_cast (Nat.div_mul_cancel (Nat.dvd_of_mod_eq_zero h)).symm
      rw [ih, value, value, hdigits, zpow_add_one₀ (by norm_num)]
      ring
    · rfl

theorem strip_value (d : Decimal) : d.strip.value = d.value := by
  rw [strip]
  split
  · rename_i h
    rw [value_eq_zero.mpr h]
    exact value_eq_zero.mpr rfl
  · exact stripUpTo_value _ d

end Decimal

namespace Binary

variable {b : Binary}

theorem gridStep_eq (b : Binary) (g : ℤ) :
    (b.gridStep g : ℚ) * (2 ^ b.exponent / 4) = b.quarter g * 10 ^ g := by
  have he : (2 : ℚ) ^ b.exponent / 4 = 2 ^ (b.exponent - (2 : ℕ)) := by
    rw [two_zpow_sub]
    norm_num
  rw [he, zpow_eq_div (by norm_num) (b.exponent - _), zpow_eq_div (by norm_num) g, gridStep,
    quarter]
  simp only [Nat.pow_eq, Nat.cast_mul, Nat.cast_pow, Nat.cast_ofNat, neg_sub]
  field_simp

theorem exists_gridUnit (b : Binary) (g : ℤ) :
    ∃ u : ℚ, 0 < u ∧ 10 ^ g = b.gridStep g * u ∧ 2 ^ b.exponent / 4 = b.quarter g * u := by
  have hquarter : (0 : ℚ) < b.quarter g := by exact_mod_cast quarter_pos g
  refine ⟨2 ^ b.exponent / 4 / b.quarter g, ?_, ?_, ?_⟩
  · exact div_pos (div_pos (two_zpow_pos _) (by norm_num)) hquarter
  · rw [← mul_div_assoc, gridStep_eq, mul_div_cancel_left₀ _ hquarter.ne']
  · rw [mul_div_cancel₀ _ hquarter.ne']

/-- **The test finds what is rounded to the double.** -/
theorem readsBack_iff {d : ℕ} {g : ℤ} :
    b.readsBack d g = true ↔ b.Rounds (Decimal.value ⟨d, g⟩) := by
  -- both sides of the test, as multiples of one unit
  obtain ⟨u, hpos, hgrid, hquarter⟩ := b.exists_gridUnit g
  have hx : Decimal.value ⟨d, g⟩ = (d * b.gridStep g : ℕ) * u := by
    rw [Decimal.value, Nat.cast_mul, mul_assoc, hgrid]
  have hend (n : ℕ) : (n : ℚ) / 4 * 2 ^ b.exponent = (n * b.quarter g : ℕ) * u := by
    rw [Nat.cast_mul, mul_assoc, ← hquarter]
    ring
  rw [Rounds, hx, hend, hend]
  simp only [mul_le_mul_iff_left₀ hpos, mul_lt_mul_iff_left₀ hpos, Nat.cast_le, Nat.cast_lt]
  simp only [readsBack]
  split
  · rename_i heven
    simp only [Bool.and_eq_true, decide_eq_true_eq]
    exact ⟨fun h => ⟨h, fun hodd => by omega⟩, And.left⟩
  · simp only [Bool.and_eq_true, decide_eq_true_eq]
    exact ⟨fun h => ⟨⟨h.1.le, h.2.le⟩, fun _ => h⟩, fun h => h.2 (by omega)⟩

theorem nearer_eq (tie : Tie) (d : ℕ) (g : ℤ) :
    b.nearer tie d g = d ∨ b.nearer tie d g = d + 1 := by
  unfold nearer
  split <;> omega

theorem readsBack_of_onGrid {tie : Tie} {g : ℤ} {d : ℕ} (h : b.onGrid tie g = some d) :
    b.readsBack d g = true := by
  simp only [onGrid] at h
  generalize 4 * b.mantissa * b.quarter g / b.gridStep g = k at h
  split at h
  · rename_i hlow hhigh
    rw [← Option.some.inj h]
    rcases nearer_eq tie k g with hk | hk
    · rwa [hk]
    · rwa [hk]
  · rename_i hlow _
    rwa [← Option.some.inj h]
  · rename_i _ hhigh
    rwa [← Option.some.inj h]
  · cases h

theorem exact_value (b : Binary) : b.exact.value = b.value := by
  have hmin : (10 : ℚ) ^ min b.exponent 0 =
      1 / (2 ^ (-b.exponent).toNat * 5 ^ (-b.exponent).toNat) := by
    rw [zpow_eq_div (by norm_num), ← mul_pow]
    have h₁ : (min b.exponent 0).toNat = 0 := by omega
    have h₂ : (-min b.exponent 0).toNat = (-b.exponent).toNat := by omega
    rw [h₁, h₂]
    norm_num
  rw [Decimal.value, exact, hmin, value, zpow_eq_div (by norm_num) b.exponent, numerator]
  simp only [Nat.pow_eq, Nat.cast_mul, Nat.cast_pow, Nat.cast_ofNat]
  field_simp

/-- **The digits that are written are rounded to the double.** -/
theorem shortest_rounds (hm : b.mantissa ≠ 0) (tie : Tie) : b.Rounds (b.shortest tie).value := by
  simp only [shortest]
  rw [if_neg hm]
  split
  · rename_i d hd
    obtain ⟨n, -, hn⟩ := List.exists_of_findSome?_eq_some hd
    obtain ⟨k, hk, rfl⟩ := Option.map_eq_some_iff.mp hn
    rw [Decimal.strip_value]
    exact readsBack_iff.mp (readsBack_of_onGrid hk)
  · rw [Decimal.strip_value, exact_value]
    exact rounds_value hm

theorem shortest_of_mantissa_eq_zero (hm : b.mantissa = 0) (tie : Tie) :
    b.shortest tie = ⟨0, 0⟩ := by
  rw [shortest, if_pos hm]

end Binary

/-! ## Runs of digits -/

section Digits

theorem forall_mem_head?_cons {P : Char → Prop} {c : Char} {cs : List Char} (h : P c) :
    ∀ d ∈ (c :: cs).head?, P d := by
  intro d hd
  obtain rfl := Option.some.inj hd
  exact h

/-- The text does not go on with a digit. -/
def StopsDigits (cs : List Char) : Prop := ∀ c ∈ cs.head?, c.isDigit = false

theorem stopsDigits_nil : StopsDigits [] := nofun

theorem stopsDigits_cons {c : Char} {cs : List Char} (h : c.isDigit = false) :
    StopsDigits (c :: cs) := forall_mem_head?_cons h

theorem span_append {p : Char → Bool} {ds cs : List Char} (hds : ∀ c ∈ ds, p c = true)
    (hcs : ∀ c ∈ cs.head?, p c = false) : (ds ++ cs).span p = (ds, cs) := by
  have htake : cs.takeWhile p = [] := by
    cases cs with
    | nil => rfl
    | cons c cs => exact List.takeWhile_cons_of_neg (by simp [hcs c rfl])
  have hdrop : cs.dropWhile p = cs := by
    cases cs with
    | nil => rfl
    | cons c cs => exact List.dropWhile_cons_of_neg (by simp [hcs c rfl])
  rw [List.span_eq_takeWhile_dropWhile, List.takeWhile_append_of_pos hds,
    List.dropWhile_append_of_pos hds, htake, hdrop, List.append_nil]

theorem takeDigits_append {ds cs : List Char} (hds : ∀ c ∈ ds, c.isDigit = true)
    (hcs : StopsDigits cs) : takeDigits (ds ++ cs) = (ds, cs) := span_append hds hcs

theorem valueOf_digitsOf (n : ℕ) : Decimal.valueOf (Decimal.digitsOf n) = n :=
  Nat.ofDigitChars_toDigits (by decide) (by decide)

theorem valueOf_append_zeros (n k : ℕ) :
    Decimal.valueOf (Decimal.digitsOf n ++ List.replicate k '0') = 10 ^ k * n := by
  rw [Decimal.valueOf, Nat.ofDigitChars_append, Nat.ofDigitChars_replicate_zero]
  exact congrArg (10 ^ k * ·) (valueOf_digitsOf n)

theorem valueOf_zeros_append (n k : ℕ) :
    Decimal.valueOf (List.replicate k '0' ++ Decimal.digitsOf n) = n := by
  rw [Decimal.valueOf, Nat.ofDigitChars_append, Nat.ofDigitChars_replicate_zero, Nat.mul_zero]
  exact valueOf_digitsOf n

theorem head?_digitsOf {n : ℕ} (h : n ≠ 0) : (Decimal.digitsOf n).head? ≠ some '0' := by
  induction n using Nat.strong_induction_on with
  | _ n ih =>
    unfold Decimal.digitsOf at ih ⊢
    by_cases hlt : n < 10
    · rw [Nat.toDigits_of_lt_base hlt]
      interval_cases n <;> simp_all
    · rw [Nat.toDigits_of_base_le (by decide) (by omega),
        List.head?_append_of_ne_nil _ Nat.toDigits_ne_nil]
      exact ih (n / 10) (by omega) (by omega)

theorem digitsOf_canonical {n : ℕ} (h : (Decimal.digitsOf n).head? = some '0') :
    Decimal.digitsOf n = ['0'] := by
  by_cases hn : n = 0
  · rw [hn]
    rfl
  · exact absurd h (head?_digitsOf hn)

end Digits

/-! ## Numbers in a text -/

/-- A number as it is written: digits, a fraction and an exponent. -/
structure Numeral where
  whole : List Char
  fraction : Option (List Char)
  exponent : Option ℤ

namespace Numeral

/-- A fraction behind its point. -/
def fractionChars : Option (List Char) → List Char
  | none => []
  | some ds => '.' :: ds

/-- An exponent behind its letter and its sign. -/
def exponentChars : Option ℤ → List Char
  | none => []
  | some e => 'e' :: (if e < 0 then '-' else '+') :: Decimal.digitsOf e.natAbs

/-- The text of a number. -/
def chars (n : Numeral) : List Char :=
  n.whole ++ (fractionChars n.fraction ++ exponentChars n.exponent)

/-- What a number stands for. -/
def decimal (n : Numeral) : Decimal :=
  .ofDigits n.whole (n.fraction.getD []) (n.exponent.getD 0)

/-- There are digits in front of the point, and behind it if there is one. -/
structure WellFormed (n : Numeral) : Prop where
  whole : IsDigits n.whole
  fraction : ∀ ds ∈ n.fraction, IsDigits ds

/-- No zero stands in front of other digits. -/
def Canonical (n : Numeral) : Prop := n.whole.head? = some '0' → n.whole = ['0']

end Numeral

namespace Layout

/-- The parts of a decimal whose point is put in its place. -/
def pointedNumeral (l : Layout) (d : Decimal) : Numeral :=
  let ds := Decimal.digitsOf d.digits
  if 0 ≤ d.exponent then
    ⟨ds ++ List.replicate d.exponent.toNat '0', if l.pointZero then some ['0'] else none, none⟩
  else
    let places := d.exponent.natAbs
    if places < ds.length then
      ⟨ds.take (ds.length - places), some (ds.drop (ds.length - places)), none⟩
    else ⟨['0'], some (List.replicate (places - ds.length) '0' ++ ds), none⟩

/-- The parts of a decimal with an exponent. -/
def scientificNumeral (d : Decimal) : Numeral :=
  let ds := Decimal.digitsOf d.digits
  ⟨ds.take 1, if ds.length ≤ 1 then none else some (ds.drop 1), some d.leading⟩

/-- **The parts of a decimal in a format.** -/
def numeral (l : Layout) (d : Decimal) : Numeral :=
  match l.positional with
  | none => l.pointedNumeral d
  | some (lo, hi) =>
    if lo ≤ d.leading && d.leading < hi then l.pointedNumeral d else scientificNumeral d

variable (l : Layout) (d : Decimal)

/-- A property of all formats, from those of the two forms. -/
theorem numeral_cases {P : Numeral → Prop} (hp : P (l.pointedNumeral d))
    (hs : P (scientificNumeral d)) : P (l.numeral d) := by
  unfold numeral
  split
  · exact hp
  · split
    · exact hp
    · exact hs

theorem chars_pointedNumeral : (l.pointedNumeral d).chars = l.pointed d := by
  simp only [pointedNumeral, pointed]
  split
  · split <;> simp [Numeral.chars, Numeral.fractionChars, Numeral.exponentChars]
  · split <;> simp [Numeral.chars, Numeral.fractionChars, Numeral.exponentChars]

theorem chars_scientificNumeral : (scientificNumeral d).chars = scientific d := by
  simp only [scientificNumeral, scientific, Numeral.chars, Numeral.exponentChars]
  split <;> simp [Numeral.fractionChars]

theorem chars_numeral : (l.numeral d).chars = l.magnitude d := by
  unfold numeral magnitude
  rcases l.positional with _ | ⟨lo, hi⟩
  · exact chars_pointedNumeral l d
  · simp only
    split
    · exact chars_pointedNumeral l d
    · exact chars_scientificNumeral d

theorem take_isDigits {n k : ℕ} (hk : k ≠ 0) : IsDigits ((Decimal.digitsOf n).take k) := by
  obtain ⟨hne, hds⟩ := digitsOf_isDigits n
  exact ⟨by simp [hne, hk], fun c h => hds c (List.mem_of_mem_take h)⟩

theorem drop_isDigits {n k : ℕ} (hk : k < (Decimal.digitsOf n).length) :
    IsDigits ((Decimal.digitsOf n).drop k) :=
  ⟨by simpa using hk, fun c h => digitsOf_isDigit c (List.mem_of_mem_drop h)⟩

theorem zeros_isDigit (k : ℕ) : ∀ c ∈ List.replicate k '0', c.isDigit = true :=
  fun _ h => List.eq_of_mem_replicate h ▸ by decide

theorem numeral_wellFormed : (l.numeral d).WellFormed := by
  obtain ⟨hne, hds⟩ := digitsOf_isDigits d.digits
  have hpos : 0 < (Decimal.digitsOf d.digits).length := List.length_pos_iff.mpr hne
  apply numeral_cases
  · simp only [pointedNumeral]
    split
    · refine ⟨⟨by simp [hne], ?_⟩, fun ds h => ?_⟩
      · exact List.forall_mem_append.mpr ⟨hds, zeros_isDigit _⟩
      · split at h
        · obtain rfl := Option.some.inj h
          exact isDigits_zero
        · exact nomatch h
    · split
      · refine ⟨take_isDigits (by omega), fun ds h => ?_⟩
        obtain rfl := Option.some.inj h
        exact drop_isDigits (by omega)
      · refine ⟨isDigits_zero, fun ds h => ?_⟩
        obtain rfl := Option.some.inj h
        exact ⟨by simp [hne], List.forall_mem_append.mpr ⟨zeros_isDigit _, hds⟩⟩
  · simp only [scientificNumeral]
    refine ⟨take_isDigits one_ne_zero, fun ds h => ?_⟩
    split at h
    · exact nomatch h
    · obtain rfl := Option.some.inj h
      exact drop_isDigits (by omega)

theorem head?_take {α : Type} {xs : List α} {k : ℕ} (hk : k ≠ 0) :
    (xs.take k).head? = xs.head? := by
  cases xs with
  | nil => simp
  | cons x xs =>
    obtain ⟨k, rfl⟩ := Nat.exists_eq_succ_of_ne_zero hk
    rfl

/-- A decimal that is zero without any zeros behind it, or not zero, is written without a zero in
front of other digits. -/
theorem numeral_canonical (hd : d.digits = 0 → d.exponent = 0) : (l.numeral d).Canonical := by
  have hne : Decimal.digitsOf d.digits ≠ [] := Nat.toDigits_ne_nil
  have hhead : (Decimal.digitsOf d.digits).head? = some '0' → d.digits = 0 := by
    intro h
    by_contra hcon
    exact head?_digitsOf hcon h
  apply numeral_cases
  · simp only [pointedNumeral]
    split
    · intro h
      rw [List.head?_append_of_ne_nil _ hne] at h
      simp only
      rw [hd (hhead h), hhead h]
      rfl
    · split
      · intro h
        rw [head?_take (by omega)] at h
        have := hd (hhead h)
        omega
      · intro
        rfl
  · intro h
    simp only [scientificNumeral] at h ⊢
    rw [head?_take one_ne_zero] at h
    rw [hhead h]
    rfl

theorem ten_zpow_of_nonneg {e : ℤ} (he : 0 ≤ e) : (10 : ℚ) ^ e = 10 ^ e.toNat := by
  rw [← zpow_natCast, Int.toNat_of_nonneg he]

theorem decimal_pointedNumeral_value : (l.pointedNumeral d).decimal.value = d.value := by
  simp only [pointedNumeral, Numeral.decimal, Decimal.ofDigits, Decimal.value]
  split
  · rename_i he
    rw [ten_zpow_of_nonneg he]
    split
    · have hzero : List.replicate d.exponent.toNat '0' ++ ['0'] =
          List.replicate (d.exponent.toNat + 1) '0' := List.replicate_succ'.symm
      simp only [Option.getD_some, Option.getD_none]
      rw [List.append_assoc, hzero, valueOf_append_zeros]
      push_cast
      simp only [List.length_singleton, Nat.cast_one, zero_sub, zpow_neg_one, pow_succ]
      field_simp
    · simp only [Option.getD_none]
      rw [List.append_nil, valueOf_append_zeros]
      push_cast
      simp [mul_comm]
  · -- the digits and the exponent are those of the decimal
    split
    · simp only [Option.getD_some, Option.getD_none]
      rw [List.take_append_drop, valueOf_digitsOf, List.length_drop]
      congr 2
      omega
    · simp only [Option.getD_some, Option.getD_none]
      rw [← List.append_assoc, List.singleton_append, ← List.replicate_succ,
        valueOf_zeros_append, List.length_append, List.length_replicate]
      congr 2
      omega

theorem decimal_scientificNumeral_value : (scientificNumeral d).decimal.value = d.value := by
  obtain ⟨hne, -⟩ := digitsOf_isDigits d.digits
  have hpos : 0 < (Decimal.digitsOf d.digits).length := List.length_pos_iff.mpr hne
  -- one digit in front of the point, and all others behind it
  have hfraction : (scientificNumeral d).fraction.getD [] = (Decimal.digitsOf d.digits).drop 1 := by
    simp only [scientificNumeral]
    split
    · rename_i h
      exact (List.drop_eq_nil_of_le h).symm
    · rfl
  have hdecimal : (scientificNumeral d).decimal =
      ⟨d.digits, d.leading - ((Decimal.digitsOf d.digits).length - 1 : ℕ)⟩ := by
    rw [Numeral.decimal, hfraction, Decimal.ofDigits, List.length_drop]
    simp only [scientificNumeral, Option.getD_some]
    rw [List.take_append_drop, valueOf_digitsOf]
  rw [hdecimal, Decimal.value, Decimal.value, Decimal.leading, Decimal.digitCount]
  by_cases hz : d.digits = 0
  · simp [hz]
  · rw [if_neg hz, if_neg hz]
    congr 2
    simp only
    omega

/-- **Every format keeps the value.** -/
theorem decimal_numeral_value : (l.numeral d).decimal.value = d.value :=
  numeral_cases (P := fun n => n.decimal.value = d.value) l d (decimal_pointedNumeral_value l d)
    (decimal_scientificNumeral_value d)

end Layout

/-! ## Reading -/

namespace Numeral

theorem stopsDigits_exponentChars (e : Option ℤ) : StopsDigits (exponentChars e) := by
  cases e with
  | none => exact stopsDigits_nil
  | some e => exact stopsDigits_cons (by decide)

theorem takeSign_exponent (e : ℤ) :
    takeSign ((if e < 0 then '-' else '+') :: Decimal.digitsOf e.natAbs) =
      (decide (e < 0), Decimal.digitsOf e.natAbs) := by
  split
  · rename_i h
    rw [decide_eq_true h]
    rfl
  · rename_i h
    rw [decide_eq_false h]
    rfl

theorem signed_natAbs (e : ℤ) :
    (if decide (e < 0) = true then -(e.natAbs : ℤ) else e.natAbs) = e := by
  simp only [decide_eq_true_eq]
  split <;> omega

theorem readExponent?_exponentChars (e : Option ℤ) :
    readExponent? (exponentChars e) = some (e.getD 0) := by
  cases e with
  | none => rfl
  | some e =>
    obtain ⟨hne, hds⟩ := digitsOf_isDigits e.natAbs
    have htake := takeDigits_append hds stopsDigits_nil
    rw [List.append_nil] at htake
    rw [exponentChars, readExponent?, if_pos (.inl rfl), takeSign_exponent]
    simp only
    rw [htake, if_neg (by simp [hne]), valueOf_digitsOf, signed_natAbs]
    rfl

/-- **A number is read as what it stands for.** -/
theorem readDecimal?_chars {n : Numeral} (h : n.WellFormed) :
    readDecimal? n.chars = some n.decimal := by
  obtain ⟨⟨hne, hwhole⟩, hfraction⟩ := h
  have hexponent := readExponent?_exponentChars n.exponent
  rw [readDecimal?, chars, decimal]
  cases hf : n.fraction with
  | none =>
    rw [fractionChars, List.nil_append, takeDigits_append hwhole (stopsDigits_exponentChars _)]
    simp only [Option.getD_none]
    rw [if_neg fun h => hne h.1]
    -- an exponent does not begin with a point
    cases he : n.exponent with
    | none => rfl
    | some e =>
      rw [he] at hexponent
      change (readExponent? (exponentChars (some e))).bind
        (some ∘ Decimal.ofDigits n.whole []) = _
      rw [hexponent]
      rfl
  | some ds =>
    have hds := hfraction ds hf
    have hstops : StopsDigits ('.' :: (ds ++ exponentChars n.exponent)) :=
      stopsDigits_cons (by decide)
    rw [fractionChars, List.cons_append, takeDigits_append hwhole hstops]
    simp only
    rw [takeDigits_append hds.2 (stopsDigits_exponentChars _)]
    simp [hne, hexponent]

end Numeral

section Floats

variable {x : Float}

theorem chars_of_isFinite (l : Layout) (hx : x.isFinite = true) :
    l.chars x = (if Binary.signBit x then ['-'] else []) ++
      (l.numeral ((Binary.ofFloat x).shortest l.tie)).chars := by
  rw [Layout.chars_numeral, Layout.chars, isNaN_of_isFinite hx, isInf_of_isFinite hx]
  rfl

/-- **The digits of a finite double are read as the double**, wherever their point stands. -/
theorem nearestBits_numeral (l : Layout) (tie : Tie) (hx : x.isFinite = true) :
    (l.numeral ((Binary.ofFloat x).shortest tie)).decimal.nearestBits = Binary.magnitudeBits x := by
  have hvalue := l.decimal_numeral_value ((Binary.ofFloat x).shortest tie)
  by_cases hm : (Binary.ofFloat x).mantissa = 0
  · rw [Binary.shortest_of_mantissa_eq_zero hm] at hvalue ⊢
    rw [magnitudeBits_eq_zero hm, Decimal.nearestBits, if_pos]
    exact Decimal.value_eq_zero.mp (hvalue.trans (Decimal.value_eq_zero.mpr rfl))
  · have hrounds := Binary.shortest_rounds hm tie
    rw [← hvalue] at hrounds
    rw [Decimal.nearestBits_of_rounds (Binary.ofFloat_canonical hx) hm hrounds, Binary.ofFloat_bits]

theorem numeral_shortest_canonical (l : Layout) (tie : Tie) (x : Float) :
    (l.numeral ((Binary.ofFloat x).shortest tie)).Canonical := by
  refine Layout.numeral_canonical _ _ fun hdigits => ?_
  by_cases hm : (Binary.ofFloat x).mantissa = 0
  · rw [Binary.shortest_of_mantissa_eq_zero hm]
  · exact absurd hdigits (Binary.shortest_digits_ne_zero hm _)

theorem toFloat_numeral (l : Layout) (tie : Tie) (hx : x.isFinite = true) :
    (l.numeral ((Binary.ofFloat x).shortest tie)).decimal.toFloat (Binary.signBit x) = x := by
  rw [Decimal.toFloat, nearestBits_numeral l tie hx, Binary.signedFloat_magnitudeBits]

theorem isDigit_toLower {c : Char} (hc : c.isDigit = true) : c.toLower.isDigit = true := by
  have hrange := hc
  simp only [Char.isDigit, Bool.and_eq_true, decide_eq_true_eq, ge_iff_le,
    UInt32.le_iff_toNat_le] at hrange
  rw [Char.toLower, dif_neg]
  · exact hc
  · simp only [ge_iff_le, UInt32.le_iff_toNat_le]
    simp at hrange ⊢
    omega

theorem takeSign_of_digit {negative : Bool} {c : Char} {cs : List Char} (hc : c.isDigit = true) :
    takeSign ((if negative then ['-'] else []) ++ c :: cs) = (negative, c :: cs) := by
  cases negative with
  | true => rfl
  | false =>
    have h₁ : c ≠ '-' := by
      rintro rfl
      exact absurd hc (by decide)
    have h₂ : c ≠ '+' := by
      rintro rfl
      exact absurd hc (by decide)
    simp only [Bool.false_eq_true, if_false, List.nil_append]
    unfold takeSign
    split <;> simp_all

theorem readFloat?_of_digit {negative : Bool} {c : Char} {cs : List Char} (hc : c.isDigit = true) :
    readFloat? (String.ofList ((if negative then ['-'] else []) ++ c :: cs)) =
      (readDecimal? (c :: cs)).map (Decimal.toFloat negative) := by
  have hword {d : Char} (hd : d.isDigit = false) (ds : List Char) :
      String.ofList ((c :: cs).map Char.toLower) ≠ String.ofList (d :: ds) := by
    intro h
    obtain ⟨rfl, -⟩ := List.cons.inj (String.ofList_injective h)
    rw [isDigit_toLower hc] at hd
    exact nomatch hd
  rw [readFloat?, String.toList_ofList, takeSign_of_digit hc]
  simp only
  rw [if_neg, if_neg]
  · exact hword (by decide) "an".toList
  · rintro (h | h)
    · exact hword (by decide) "nf".toList h
    · exact hword (by decide) "nfinity".toList h

/-- **Every format reads back**: a finite number is read from its text as itself. -/
theorem readFloat?_render (l : Layout) (hx : x.isFinite = true) :
    readFloat? (l.render x) = some x := by
  have hwell := l.numeral_wellFormed ((Binary.ofFloat x).shortest l.tie)
  have hread := Numeral.readDecimal?_chars hwell
  have hvalue := toFloat_numeral l l.tie hx
  obtain ⟨c, cs, hwhole⟩ := List.exists_cons_of_ne_nil hwell.whole.1
  have hdigit : c.isDigit = true := hwell.whole.2 c (by simp [hwhole])
  rw [Layout.render, chars_of_isFinite l hx]
  generalize l.numeral ((Binary.ofFloat x).shortest l.tie) = n at *
  have hchars : n.chars = c :: (cs ++
      (Numeral.fractionChars n.fraction ++ Numeral.exponentChars n.exponent)) := by
    rw [Numeral.chars, hwhole, List.cons_append]
  rw [hchars, readFloat?_of_digit hdigit, ← hchars, hread, Option.map_some, hvalue]

end Floats

end HpGl
