import HpGl.Proofs.Comparison

/-!
# The interval of a double

What is read as a double lies in its interval, so the interval is all that is read as the double.

* `roundHalfEven_nearest`: a quotient is rounded to an integer that is nearest to it.
* `Binary.rounds_of_nearestBits`: quotients that are read as a double.
* `Binary.Rounds.between`: intervals have no gaps.
* **`Binary.Rounds.nearest`**: no double is nearer to what lies in the interval.
* **`Decimal.toFloat_eq_iff`**, `Decimal.nearest_of_rounds`: the decimals that are read as a double.
-/

namespace HpGl

open Binary

/-! ## Rounding to an integer -/

/-- **A quotient is rounded to a nearest integer**, to an even one if two are. -/
theorem roundHalfEven_nearest (num : ℕ) {den : ℕ} (hden : 0 < den) :
    Nearest (roundHalfEven num den) (num / den) := by
  have hd : (0 : ℚ) < den := by exact_mod_cast hden
  have hmod : num % den < den := Nat.mod_lt _ hden
  have hquotient : (num : ℚ) / den = (num / den : ℕ) + (num % den : ℕ) / den := by
    have hnum : (num : ℚ) = (num / den : ℕ) * den + (num % den : ℕ) := by
      exact_mod_cast (Nat.div_add_mod' num den).symm
    rw [div_eq_iff hd.ne', add_mul, div_mul_cancel₀ _ hd.ne', hnum]
  rw [hquotient, roundHalfEven]
  generalize num / den = q
  generalize num % den = r at hmod
  have hpos : 0 ≤ (r : ℚ) / den := by positivity
  have hone : (r : ℚ) / den < 1 := (div_lt_one hd).mpr (by exact_mod_cast hmod)
  unfold Nearest
  cases hcompare : compare (2 * r) den with
  | lt =>
    have hhalf : (r : ℚ) / den < 1 / 2 := by
      have : (2 * r : ℚ) < den := by exact_mod_cast Nat.compare_eq_lt.mp hcompare
      rw [div_lt_iff₀ hd]
      linarith
    exact ⟨⟨by linarith, by linarith⟩, fun _ => ⟨by linarith, by linarith⟩⟩
  | eq =>
    have hhalf : (r : ℚ) / den = 1 / 2 := by
      have : (2 * r : ℚ) = den := by exact_mod_cast Nat.compare_eq_eq.mp hcompare
      rw [div_eq_iff hd.ne']
      linarith
    simp only
    rcases Nat.mod_two_eq_zero_or_one q with h0 | h1
    · rw [h0, add_zero]
      exact ⟨⟨by linarith, by linarith⟩, fun hodd => by omega⟩
    · rw [h1, Nat.cast_add_one]
      exact ⟨⟨by linarith, by linarith⟩, fun hodd => by omega⟩
  | gt =>
    have hhalf : 1 / 2 < (r : ℚ) / den := by
      have : (den : ℚ) < 2 * r := by exact_mod_cast Nat.compare_eq_gt.mp hcompare
      rw [lt_div_iff₀ hd]
      linarith
    simp only [Nat.cast_add_one]
    exact ⟨⟨by linarith, by linarith⟩, fun _ => ⟨by linarith, by linarith⟩⟩

/-! ## Rounding to a double -/

namespace Binary

variable {b : Binary}

theorem Canonical.bits_lt (hb : b.Canonical) : b.bits < infinityBits := by
  have := hb.mantissa_lt
  have := hb.exponent_le
  simp only [bits, infinityBits, leadingBit] at *
  omega

theorem bits_pos (hm : b.mantissa ≠ 0) : 0 < b.bits := by
  rw [bits]
  omega

theorem rounds_lowest {r : ℕ} {y : ℚ} (h : Nearest r y) (hr : r ≠ 0) (negative : Bool) :
    (⟨negative, r, -1074⟩ : Binary).Rounds (y * 2 ^ (-1074 : ℤ)) := by
  have hupper := upper_eq ⟨negative, r, -1074⟩
  have hlower := lower_of_not_narrow (b := ⟨negative, r, -1074⟩) hr (by simp [narrowBelow])
  obtain ⟨⟨hlo, hhi⟩, hodd⟩ := h
  refine rounds_mul ⟨by linarith, by linarith⟩ fun ho => ?_
  obtain ⟨h₁, h₂⟩ := hodd ho
  exact ⟨by linarith, by linarith⟩

theorem rounds_of_bits (hb : b.Canonical) (hm : b.mantissa ≠ 0) {q : ℤ} {r : ℕ} {y : ℚ}
    (hq : -1074 ≤ q) (hr : Nearest r y) (hhi : y < 2 * (leadingBit : ℚ))
    (hlo : -1074 < q → (leadingBit : ℚ) ≤ y) (hbits : (q + 1074).toNat * leadingBit + r = b.bits) :
    b.Rounds (y * 2 ^ q) := by
  obtain ⟨negative, m, e⟩ := b
  obtain ⟨hmlt, hele, -, hlead⟩ := hb
  simp only [bits] at hmlt hele hlead hm hbits
  have hbelow : (r : ℚ) - 1 / 2 ≤ y := hr.1.1
  have habove : y ≤ r + 1 / 2 := hr.1.2
  have hr₁ : r ≤ 2 * leadingBit := by
    have : (r : ℚ) < 2 * leadingBit + 1 := by linarith
    have : r < 2 * leadingBit + 1 := by exact_mod_cast this
    omega
  have hr₂ : -1074 < q → leadingBit ≤ r := by
    intro h
    have : (leadingBit : ℚ) < r + 1 := by linarith [hlo h]
    have : leadingBit < r + 1 := by exact_mod_cast this
    omega
  rcases hr₁.eq_or_lt with hcarry | hlt
  · obtain ⟨rfl, rfl⟩ : m = leadingBit ∧ e = q + 1 := by
      unfold leadingBit at *
      omega
    refine rounds_of_carry ?_ hhi negative hq
    rw [hcarry, Nat.cast_mul, Nat.cast_two] at hbelow
    exact hbelow
  · obtain ⟨rfl, rfl⟩ : m = r ∧ e = q := by
      unfold leadingBit at *
      omega
    rcases hq.eq_or_lt with rfl | hq
    · exact rounds_lowest hr hm negative
    · exact hr.rounds (hr₂ hq) (hlo hq) negative e

/-- **A quotient that is read as a double** lies in its interval. -/
theorem rounds_of_nearestBits (hb : b.Canonical) (hm : b.mantissa ≠ 0) {num den : ℕ}
    (hden : 0 < den) (h : nearestBits num den = b.bits) : b.Rounds (num / den) := by
  have hpos := bits_pos hm
  have hfits := hb.bits_lt
  have hnum : num ≠ 0 := by
    rintro rfl
    rw [← h, nearestBits, if_pos rfl] at hpos
    exact absurd hpos (lt_irrefl 0)
  obtain ⟨hlo, hhi⟩ := floorLog2_bounds (Nat.pos_of_ne_zero hnum) hden
  rw [nearestBits, if_neg hnum] at h
  simp only at h
  obtain ⟨q, hq⟩ : ∃ q, q = max (-1074) (floorLog2 num den - 52) := ⟨_, rfl⟩
  rw [← hq] at h
  have hp := two_zpow_pos q
  have hdq : 0 < den * Nat.pow 2 q.toNat := Nat.mul_pos hden (Nat.pow_pos (by decide))
  have hnear := roundHalfEven_nearest (num * Nat.pow 2 (-q).toNat) hdq
  rw [scaled_div] at hnear
  have hscaled : (num : ℚ) / den = num / den / 2 ^ q * 2 ^ q := (div_mul_cancel₀ _ hp.ne').symm
  rw [hscaled]
  refine rounds_of_bits hb hm (by omega) hnear ?_ ?_ (by omega)
  · have htop : (2 : ℚ) ^ (floorLog2 num den + 1) ≤ 2 ^ (q + (53 : ℕ)) :=
      zpow_le_zpow_right₀ (by norm_num) (by omega)
    rw [two_zpow_add, mul_comm] at htop
    rw [div_lt_iff₀ hp]
    exact hhi.trans_le (htop.trans_eq (by norm_num))
  · intro hlt
    have hbottom : (2 : ℚ) ^ (q + (52 : ℕ)) ≤ 2 ^ floorLog2 num den :=
      zpow_le_zpow_right₀ (by norm_num) (by omega)
    rw [two_zpow_add, mul_comm] at hbottom
    rw [le_div_iff₀ hp]
    exact le_trans (le_of_eq (by norm_num)) (hbottom.trans hlo)

/-- **Intervals have no gaps.** -/
theorem Rounds.between {x y z : ℚ} (hx : b.Rounds x) (hz : b.Rounds z) (hxy : x ≤ y) (hyz : y ≤ z) :
    b.Rounds y :=
  ⟨⟨hx.1.1.trans hxy, hyz.trans hz.1.2⟩,
    fun hodd => ⟨(hx.2 hodd).1.trans_le hxy, hyz.trans_lt (hz.2 hodd).2⟩⟩

/-! ## Neighbours -/

section Neighbours

variable {c : Binary}

theorem Canonical.le_of_lt (hb : b.Canonical) (hc : c.Canonical) (h : b.value < c.value) :
    b.value + 2 ^ b.exponent ≤ c.value := by
  have hp := two_zpow_pos b.exponent
  have he : b.exponent ≤ c.exponent := by
    by_contra hlt
    exact (hc.value_lt hb (not_le.mp hlt)).not_gt h
  obtain ⟨k, hk⟩ : ∃ k : ℕ, c.exponent = b.exponent + k :=
    ⟨(c.exponent - b.exponent).toNat, by omega⟩
  have hvalue : c.value = (c.mantissa * 2 ^ k : ℕ) * 2 ^ b.exponent := by
    rw [value, hk, two_zpow_add]
    push_cast
    ring
  rw [hvalue, value] at h ⊢
  have hlt := lt_of_mul_lt_mul_right h hp.le
  have hlt : b.mantissa + 1 ≤ c.mantissa * 2 ^ k := by exact_mod_cast hlt
  have hlt : ((b.mantissa + 1 : ℕ) : ℚ) ≤ (c.mantissa * 2 ^ k : ℕ) := Nat.cast_le.mpr hlt
  rw [← add_one_mul, ← Nat.cast_add_one]
  exact mul_le_mul_of_nonneg_right hlt hp.le

theorem Canonical.le_of_gt (hb : b.Canonical) (hc : c.Canonical) (h : c.value < b.value) :
    c.value + b.value ≤ 2 * (b.lower / 4 * 2 ^ b.exponent) := by
  have hp := two_zpow_pos b.exponent
  have he : c.exponent ≤ b.exponent := by
    by_contra hlt
    exact (hb.value_lt hc (not_le.mp hlt)).not_gt h
  have hmantissa : (c.mantissa : ℚ) + 1 ≤ 2 * leadingBit := by exact_mod_cast hc.mantissa_lt
  -- with less exponent, no mantissa comes nearer to the power of two
  have hless : c.exponent < b.exponent →
      c.value + 2 ^ b.exponent / 2 ≤ leadingBit * 2 ^ b.exponent := by
    intro hlt
    have hpow : (2 : ℚ) ^ c.exponent ≤ 2 ^ b.exponent / 2 := by
      rw [le_div_iff₀ two_pos, ← zpow_add_one₀ (by norm_num)]
      exact zpow_le_zpow_right₀ (by norm_num) hlt
    have hle : c.value ≤ (2 * leadingBit - 1) * (2 ^ b.exponent / 2) :=
      mul_le_mul (by linarith) hpow (two_zpow_pos _).le (by unfold leadingBit; norm_num)
    linarith
  cases hn : b.narrowBelow with
  | true =>
    obtain ⟨hlead, hlow⟩ : b.mantissa = leadingBit ∧ -1074 < b.exponent := by
      simpa [narrowBelow] using hn
    have hne : c.exponent ≠ b.exponent := by
      intro heq
      have := hc.leading (heq ▸ hlow)
      rw [value, value, heq] at h
      have hlt := lt_of_mul_lt_mul_right h hp.le
      have hlt : c.mantissa < b.mantissa := by exact_mod_cast hlt
      omega
    have hfar := hless (lt_of_le_of_ne he hne)
    have hvalue : b.value = leadingBit * 2 ^ b.exponent := by rw [value, hlead]
    rw [lower_of_leading hlead hlow, hvalue]
    unfold leadingBit at hfar ⊢
    push_cast at hfar ⊢
    linarith
  | false =>
    have hm : b.mantissa ≠ 0 := by
      intro hzero
      have hvalue : b.value = 0 := by rw [value, hzero, Nat.cast_zero, zero_mul]
      exact c.value_nonneg.not_gt (hvalue ▸ h)
    have hone : c.value + 2 ^ b.exponent ≤ b.mantissa * 2 ^ b.exponent := by
      rcases he.eq_or_lt with heq | hlt
      · rw [value, value, heq] at h
        have hlt := lt_of_mul_lt_mul_right h hp.le
        have hle : (c.mantissa : ℚ) + 1 ≤ b.mantissa := by exact_mod_cast hlt
        rw [value, heq, ← add_one_mul]
        exact mul_le_mul_of_nonneg_right hle hp.le
      · have hlow : -1074 < b.exponent := hc.le_exponent.trans_lt hlt
        have hne : b.mantissa ≠ leadingBit := fun heq => by simp [narrowBelow, heq, hlow] at hn
        have hmore : leadingBit + 1 ≤ b.mantissa := Nat.lt_of_le_of_ne (hb.leading hlow) hne.symm
        have hmore : (leadingBit : ℚ) + 1 ≤ b.mantissa := by exact_mod_cast hmore
        have hle := mul_le_mul_of_nonneg_right hmore hp.le
        have hfar := hless hlt
        push_cast at hle hfar
        linarith
    have hvalue : b.value = b.mantissa * 2 ^ b.exponent := rfl
    rw [lower_of_not_narrow hm hn, hvalue]
    linarith

/-- **What is rounded to a double has no double nearer to it.** -/
theorem Rounds.nearest {x : ℚ} (hx : b.Rounds x) (hb : b.Canonical) (hc : c.Canonical) :
    |b.value - x| ≤ |c.value - x| := by
  obtain ⟨⟨hlo, hhi⟩, -⟩ := hx
  rw [upper_eq] at hhi
  have hupper : x ≤ b.value + 2 ^ b.exponent / 2 := by
    rw [value]
    linarith
  rcases lt_trichotomy b.value c.value with hlt | heq | hgt
  · have hfar := hb.le_of_lt hc hlt
    rw [abs_le]
    have := le_abs_self (c.value - x)
    constructor <;> linarith
  · rw [heq]
  · have hfar := hb.le_of_gt hc hgt
    have := neg_le_abs (c.value - x)
    rw [abs_le]
    constructor <;> linarith

end Neighbours

end Binary

/-! ## Decimals -/

namespace Decimal

variable {b : Binary} {d : Decimal}

theorem nearestBits_le (d : Decimal) : d.nearestBits ≤ infinityBits := by
  unfold nearestBits HpGl.nearestBits
  split
  · exact Nat.zero_le _
  split
  · exact le_refl _
  split
  · exact Nat.zero_le _
  split
  · exact Nat.zero_le _
  · exact min_le_right _ _

theorem rounds_of_nearestBits (hb : b.Canonical) (hm : b.mantissa ≠ 0)
    (h : d.nearestBits = b.bits) : b.Rounds d.value := by
  have hpos := bits_pos hm
  have hfits := hb.bits_lt
  rw [nearestBits] at h
  split at h
  · omega
  split at h
  · omega
  split at h
  · omega
  · rw [value_eq_div]
    exact Binary.rounds_of_nearestBits hb hm (Nat.pow_pos (by decide)) h

theorem not_isFinite_infiniteFloat (negative : Bool) :
    (infiniteFloat negative).isFinite = false := by
  cases negative <;> decide +kernel

/-- **The interval is all that is read as a double** other than zero, with its sign. -/
theorem toFloat_eq_iff {x : Float} (hx : x.isFinite = true) (hm : (ofFloat x).mantissa ≠ 0)
    {negative : Bool} :
    d.toFloat negative = x ↔ negative = signBit x ∧ (ofFloat x).Rounds d.value := by
  constructor
  · intro h
    rcases d.nearestBits_le.lt_or_eq with hlt | heq
    · have hsign := signBit_signedFloat negative hlt
      have hbits := magnitudeBits_signedFloat negative hlt
      rw [← toFloat, h] at hsign hbits
      rw [← ofFloat_bits] at hbits
      exact ⟨hsign.symm, rounds_of_nearestBits (ofFloat_canonical hx) hm hbits.symm⟩
    · have hinfinite : d.toFloat negative = infiniteFloat negative := by
        rw [toFloat, heq, infiniteFloat]
      rw [← h, hinfinite, not_isFinite_infiniteFloat] at hx
      exact absurd hx Bool.false_ne_true
  · rintro ⟨rfl, hd⟩
    exact toFloat_of_rounds hx hm hd

/-- A decimal with a sign. -/
def signed (negative : Bool) (d : Decimal) : ℚ := if negative then -d.value else d.value

theorem value_nonneg (d : Decimal) : 0 ≤ d.value :=
  mul_nonneg (Nat.cast_nonneg _) (zpow_pos (by norm_num) _).le

/-- **No finite double is nearer** to a decimal in the interval of a double, on either side of
zero. -/
theorem nearest_of_rounds {x y : Float} (hx : x.isFinite = true) (hy : y.isFinite = true)
    (hd : (ofFloat x).Rounds d.value) :
    |number x - d.signed (signBit x)| ≤ |number y - d.signed (signBit x)| := by
  have hcx := ofFloat_canonical hx
  have hsame := hd.nearest hcx (ofFloat_canonical hy)
  have hzero : |(ofFloat x).value - d.value| ≤ d.value := by
    have hvalue : (⟨false, 0, -1074⟩ : Binary).value = 0 := by simp [Binary.value]
    have h := hd.nearest hcx (c := ⟨false, 0, -1074⟩) ⟨by decide, by decide, by decide, by decide⟩
    rwa [hvalue, zero_sub, abs_neg, abs_of_nonneg d.value_nonneg] at h
  have hopposite : |(ofFloat x).value - d.value| ≤ |(ofFloat y).value + d.value| :=
    hzero.trans ((le_add_of_nonneg_left (ofFloat y).value_nonneg).trans (le_abs_self _))
  unfold number signed
  cases signBit x <;> cases signBit y <;>
    simp only [Bool.false_eq_true, if_true, if_false, sub_neg_eq_add]
  · exact hsame
  · rwa [← neg_add', abs_neg]
  · rwa [neg_add_eq_sub, abs_sub_comm]
  · rwa [neg_add_eq_sub, neg_add_eq_sub, abs_sub_comm, abs_sub_comm d.value]

end Decimal

end HpGl
