import HpGl.Json.Scan
import HpGl.Proofs.Arithmetic
import HpGl.Proofs.ReadBack

/-!
# Numbers in a JSON text

The numbers of a document are scanned as they were written, with any text behind them that cannot be
taken for a part of them. The scan itself is exact. Only the arithmetic that turns digits into a
double rounds more than once, so whether a double comes back depends on its digits.

* `EndsNumber`: what can stand behind a number.
* `ReadsNearest`: the digits of a double are read as the double nearest to them.
* **`scanNumber_integer`**, **`scanNumber_real`**: what is scanned for a number.
* **`scaled_eq_toFloat`**, `readsNearest_of_isShort`: short numbers are read as the double nearest
  to them.
-/

namespace HpGl

namespace Json

/-! ## The parts of a number -/

/-- The text does not go on with a part of a number. -/
def EndsNumber (cs : List Char) : Prop :=
  ∀ c ∈ cs.head?, c.isDigit = false ∧ c ≠ '.' ∧ c ≠ 'e' ∧ c ≠ 'E'

theorem EndsNumber.stopsDigits {cs : List Char} (h : EndsNumber cs) : StopsDigits cs :=
  fun c hc => (h c hc).1

section Scanning

variable {rest : List Char}

theorem scanFraction_chars {f : Option (List Char)} (hf : ∀ ds ∈ f, IsDigits ds)
    (hr : StopsDigits rest) (hpoint : f = none → rest.head? ≠ some '.') :
    scanFraction (Numeral.fractionChars f ++ rest) = some (f, rest) := by
  cases f with
  | none =>
    cases rest with
    | nil => rfl
    | cons c cs =>
      have hc : c ≠ '.' := fun h => hpoint rfl (congrArg some h)
      rw [Numeral.fractionChars, List.nil_append, scanFraction]
      rintro cs' h
      exact hc (List.cons.inj h).1
  | some ds =>
    obtain ⟨hne, hds⟩ := hf ds rfl
    rw [Numeral.fractionChars, List.cons_append, scanFraction]
    simp only [takeDigits_append hds hr]
    rw [if_neg hne]

theorem scanExponent_chars (hr : EndsNumber rest) (e : Option ℤ) :
    scanExponent (Numeral.exponentChars e ++ rest) = some (e, rest) := by
  cases e with
  | none =>
    cases rest with
    | nil => rfl
    | cons c cs =>
      obtain ⟨-, -, h₁, h₂⟩ := hr c rfl
      simp [Numeral.exponentChars, scanExponent, h₁, h₂]
  | some e =>
    obtain ⟨hne, hds⟩ := digitsOf_isDigits e.natAbs
    have hsign : takeSign ((if e < 0 then '-' else '+') :: (Decimal.digitsOf e.natAbs ++ rest)) =
        (decide (e < 0), Decimal.digitsOf e.natAbs ++ rest) := by
      split <;> simp_all [takeSign]
    rw [Numeral.exponentChars, List.cons_append, List.cons_append, scanExponent, if_pos (.inl rfl),
      hsign]
    simp only [takeDigits_append hds hr.stopsDigits, valueOf_digitsOf, Numeral.signed_natAbs]
    rw [if_neg hne]

theorem scanNumber_parts {negative : Bool} {whole tail : List Char} {f : Option (List Char)}
    {e : Option ℤ} (hw : IsDigits whole) (hz : whole.head? = some '0' → whole = ['0'])
    (ht : StopsDigits tail) {middle : List Char} (hf : scanFraction tail = some (f, middle))
    (he : scanExponent middle = some (e, rest)) :
    scanNumber ((if negative then ['-'] else []) ++ (whole ++ tail)) =
      some (if f = none ∧ e = none then .ofDigits negative whole
        else .ofDecimal negative (cutDecimal whole (f.getD []) (e.getD 0)), rest) := by
  obtain ⟨hne, hds⟩ := hw
  have htake := takeDigits_append hds ht
  obtain ⟨c, cs, rfl⟩ := List.exists_cons_of_ne_nil hne
  have hminus : c ≠ '-' := by
    rintro rfl
    exact absurd (hds '-' List.mem_cons_self) (by decide)
  have hzero : ¬ (c :: cs = [] ∨ ((c :: cs).head? = some '0' ∧ c :: cs ≠ ['0'])) := by
    rintro (h | ⟨h, h'⟩)
    · exact hne h
    · exact h' (hz h)
  cases negative with
  | true =>
    rw [if_pos rfl, List.singleton_append, scanNumber]
    simp only [htake]
    rw [if_neg hzero]
    simp only [hf, he, Option.bind_eq_bind, Option.bind_some]
    split <;> rfl
  | false =>
    rw [if_neg Bool.false_ne_true, List.nil_append, List.cons_append, scanNumber]
    · rw [← List.cons_append]
      simp only [htake]
      rw [if_neg hzero]
      simp only [hf, he, Option.bind_eq_bind, Option.bind_some]
      split <;> rfl
    · rintro cs' h
      exact hminus (List.cons.inj h).1

end Scanning

/-! ## Whole numbers -/

/-- **Whole numbers are scanned as they were written**, as far as sixty-four bits hold them. -/
theorem scanNumber_integer {n : ℤ} (hlo : -0x8000000000000000 ≤ n) (hhi : n < 0x10000000000000000)
    {rest : List Char} (hr : EndsNumber rest) :
    scanNumber (integerChars n ++ rest) = some (.integer n, rest) := by
  have hchars : integerChars n =
      (if decide (n < 0) then ['-'] else []) ++ Decimal.digitsOf n.natAbs := by
    rw [integerChars]
    split <;> simp_all
  have hf : scanFraction rest = some (none, rest) :=
    scanFraction_chars (f := none) nofun hr.stopsDigits fun _ h => (hr _ h).2.1 rfl
  have he : scanExponent rest = some (none, rest) := scanExponent_chars hr none
  rw [hchars, List.append_assoc,
    scanNumber_parts (digitsOf_isDigits _) digitsOf_canonical hr.stopsDigits hf he, if_pos ⟨rfl, rfl⟩,
    Scan.ofDigits]
  simp only [valueOf_digitsOf, decide_eq_true_eq]
  split
  · rw [if_neg (by omega)]
    congr 3
    omega
  · rw [if_pos (by omega)]
    congr 3
    omega

/-! ## Doubles -/

/-- The parts of a double in a document. -/
def numeralOf (x : Float) : Numeral := Layout.json.numeral ((Binary.ofFloat x).shortest .even)

/-- **The digits of a double are read as the double nearest to them.** It takes the reader several
steps to get from the digits to a double, and each of them rounds. The steps are exact where the
digits and the power of ten are small, and where they are not, the result can be a neighbour. -/
def ReadsNearest (x : Float) : Prop :=
  let n := numeralOf x
  scaled (cutDecimal n.whole (n.fraction.getD []) (n.exponent.getD 0)) = n.decimal.toFloat false

instance (x : Float) : Decidable (ReadsNearest x) :=
  inferInstanceAs (Decidable (scaled _ = _))

/-- A number of a drawing, and one whose last place is lost. -/
example : ReadsNearest 12.7 ∧ ¬ ReadsNearest 1076.6264621377097 := by decide +kernel

theorem numeralOf_wellFormed (x : Float) : (numeralOf x).WellFormed :=
  Layout.numeral_wellFormed _ _

theorem numeralOf_canonical (x : Float) : (numeralOf x).Canonical :=
  numeral_shortest_canonical _ _ _

theorem numeralOf_ne_whole (x : Float) :
    ¬ ((numeralOf x).fraction = none ∧ (numeralOf x).exponent = none) := by
  refine Layout.numeral_cases (P := fun n => ¬ (n.fraction = none ∧ n.exponent = none)) _ _ ?_ ?_
  · rintro ⟨h, -⟩
    simp only [Layout.pointedNumeral] at h
    split at h
    · cases h
    · split at h <;> cases h
  · rintro ⟨-, h⟩
    cases h

theorem ofDecimal_numeralOf {x : Float} (hx : x.isFinite = true) (h : ReadsNearest x) :
    Scan.ofDecimal (Binary.signBit x) (cutDecimal (numeralOf x).whole
      ((numeralOf x).fraction.getD []) ((numeralOf x).exponent.getD 0)) = .real x := by
  have hlt := Binary.magnitudeBits_lt hx
  have hmagnitude : scaled (cutDecimal (numeralOf x).whole ((numeralOf x).fraction.getD [])
      ((numeralOf x).exponent.getD 0)) = signedFloat false (Binary.magnitudeBits x) := by
    rw [show scaled _ = _ from h, Decimal.toFloat, numeralOf, nearestBits_numeral _ _ hx]
  have hsigned : (if Binary.signBit x then -signedFloat false (Binary.magnitudeBits x)
      else signedFloat false (Binary.magnitudeBits x)) = x := by
    conv_rhs => rw [← Binary.signedFloat_magnitudeBits x]
    split
    · rename_i hs
      rw [Binary.neg_signedFloat _ hlt, hs]
      rfl
    · rename_i hs
      rw [Bool.eq_false_iff.mpr hs]
  simp only [Scan.ofDecimal]
  rw [hmagnitude, if_pos (Binary.isFinite_signedFloat _ hlt), hsigned]

/-- **Doubles are scanned as they were written**, negative zero too. -/
theorem scanNumber_real {x : Float} (hx : x.isFinite = true) (h : ReadsNearest x)
    {rest : List Char} (hr : EndsNumber rest) :
    scanNumber (Layout.json.chars x ++ rest) = some (.real x, rest) := by
  obtain ⟨hwhole, hfraction⟩ := numeralOf_wellFormed x
  have hchars : Layout.json.chars x =
      (if Binary.signBit x then ['-'] else []) ++ (numeralOf x).chars :=
    chars_of_isFinite .json hx
  have he := scanExponent_chars hr (numeralOf x).exponent
  -- what is behind the fraction is the exponent or the end
  have hmiddle : ∀ c ∈ (Numeral.exponentChars (numeralOf x).exponent ++ rest).head?,
      c.isDigit = false ∧ c ≠ '.' := by
    cases (numeralOf x).exponent with
    | none => exact fun c hc => ⟨(hr c hc).1, (hr c hc).2.1⟩
    | some e => exact forall_mem_head?_cons (by decide)
  have hf := scanFraction_chars hfraction (fun c hc => (hmiddle c hc).1)
    fun _ hc => (hmiddle '.' hc).2 rfl
  have htail : StopsDigits (Numeral.fractionChars (numeralOf x).fraction ++
      (Numeral.exponentChars (numeralOf x).exponent ++ rest)) := by
    cases (numeralOf x).fraction with
    | none => exact fun c hc => (hmiddle c hc).1
    | some ds => exact stopsDigits_cons (by decide)
  rw [hchars, Numeral.chars, List.append_assoc, List.append_assoc, List.append_assoc,
    scanNumber_parts hwhole (numeralOf_canonical x) htail hf he, if_neg (numeralOf_ne_whole x),
    ofDecimal_numeralOf hx h]

/-! ## Short numbers -/

open Binary (leadingBit ofFloat)

theorem le_ofDigitChars (n : ℕ) (cs : List Char) : n ≤ Nat.ofDigitChars 10 cs n := by
  induction cs generalizing n with
  | nil => exact le_refl n
  | cons c cs ih =>
    rw [Nat.ofDigitChars_cons]
    exact le_trans (by omega) (ih _)

theorem takeWord_eq {n : ℕ} {cs : List Char} (h : Nat.ofDigitChars 10 cs n < 0x10000000000000000) :
    takeWord n cs = (Nat.ofDigitChars 10 cs n, []) := by
  induction cs generalizing n with
  | nil => rfl
  | cons c cs ih =>
    rw [Nat.ofDigitChars_cons] at h ⊢
    have hone : Nat.ofDigitChars 10 [c] n < 0x10000000000000000 :=
      (le_ofDigitChars _ cs).trans_lt h
    rw [takeWord]
    simp only [hone, if_true]
    exact ih h

theorem cutDecimal_eq {whole fraction : List Char} (e : ℤ)
    (h : Decimal.valueOf (whole ++ fraction) < 0x10000000000000000) :
    cutDecimal whole fraction e = Decimal.ofDigits whole fraction e := by
  rw [Decimal.valueOf, Nat.ofDigitChars_append] at h
  have hwhole := takeWord_eq ((le_ofDigitChars _ _).trans_lt h)
  have hfraction := takeWord_eq h
  simp only [cutDecimal, hwhole, hfraction, Decimal.ofDigits, Decimal.valueOf,
    Nat.ofDigitChars_append, List.length_nil, Nat.cast_zero, add_zero, Nat.sub_zero]

/-- Powers of ten up to the 22nd are doubles. -/
theorem powerOfTen_exact {n : ℕ} (hn : n ≤ 22) :
    (ofFloat (powerOfTen n)).negative = false ∧ (ofFloat (powerOfTen n)).Normal ∧
      (ofFloat (powerOfTen n)).value = 10 ^ n ∧ (n : ℤ) - 52 ≤ (ofFloat (powerOfTen n)).exponent ∧
        (ofFloat (powerOfTen n)).exponent ≤ n := by
  have h0 : 5 ^ n ≠ 0 := by positivity
  have hlt : 5 ^ n < 2 * leadingBit :=
    (Nat.pow_le_pow_right (by decide) hn).trans_lt (by decide)
  have hten : (⟨1, n⟩ : Decimal).value = 10 ^ n := by
    rw [Decimal.value, zpow_natCast, Nat.cast_one, one_mul]
  have hvalue : (⟨1, n⟩ : Decimal).value = (5 ^ n : ℕ) * 2 ^ (n : ℤ) := by
    rw [hten, zpow_natCast, Nat.cast_pow, ← mul_pow]
    norm_num
  rw [← hten]
  exact Binary.toFloat_exact h0 hlt (by omega) (by omega) hvalue

/-- **Short numbers are read as the double nearest to them**: the digits and the power of ten are
doubles, so nothing but the product or the quotient is rounded. -/
theorem scaled_eq_toFloat {d : Decimal} (hd : d.digits < 2 * leadingBit) (hlo : -22 ≤ d.exponent)
    (hhi : d.exponent ≤ 22) : scaled d = d.toFloat false := by
  by_cases h0 : d.digits = 0
  · simp only [scaled, h0, Decimal.toFloat, Decimal.nearestBits, if_true]
  have hwhole : (⟨d.digits, 0⟩ : Decimal).value = d.digits * 2 ^ (0 : ℤ) := by simp [Decimal.value]
  obtain ⟨hneg, hnorm, hval, he₁, he₂⟩ :=
    Binary.toFloat_exact h0 hd (by decide) (by decide) hwhole
  rw [hwhole, zpow_zero, mul_one] at hval
  simp only [scaled]
  rw [if_neg h0, if_neg (by omega)]
  split
  · rename_i hpos
    obtain ⟨hneg', hnorm', hval', he₁', he₂'⟩ := powerOfTen_exact (n := d.exponent.toNat) (by omega)
    obtain ⟨hresult, hsign, hrounds⟩ := Binary.mul_rounds hnorm hnorm' (by omega) (by omega)
    refine (Binary.toFloat_of_normal hresult ?_ ?_).symm
    · rw [hsign, hneg, hneg']
      rfl
    · rwa [hval, hval', ← zpow_natCast, Int.toNat_of_nonneg hpos] at hrounds
  · rename_i hminus
    obtain ⟨hneg', hnorm', hval', he₁', he₂'⟩ :=
      powerOfTen_exact (n := (-d.exponent).toNat) (by omega)
    obtain ⟨hresult, hsign, hrounds⟩ := Binary.div_rounds hnorm hnorm' (by omega) (by omega)
    rw [if_pos (by omega)]
    refine (Binary.toFloat_of_normal hresult ?_ ?_).symm
    · rw [hsign, hneg, hneg']
      rfl
    · rwa [hval, hval', ← zpow_natCast, Int.toNat_of_nonneg (by omega), zpow_neg,
        div_inv_eq_mul] at hrounds

/-- A double that is written with few digits, fifteen at most say, and a power of ten up to the
22nd. -/
def IsShort (x : Float) : Prop :=
  (numeralOf x).decimal.digits < 2 * leadingBit ∧ -22 ≤ (numeralOf x).decimal.exponent ∧
    (numeralOf x).decimal.exponent ≤ 22

instance (x : Float) : Decidable (IsShort x) := instDecidableAnd

theorem readsNearest_of_isShort {x : Float} (h : IsShort x) : ReadsNearest x := by
  obtain ⟨hd, hlo, hhi⟩ := h
  have hword : (numeralOf x).decimal.digits < 0x10000000000000000 := hd.trans (by decide)
  rw [ReadsNearest, cutDecimal_eq _ hword]
  exact scaled_eq_toFloat hd hlo hhi

end Json

end HpGl
