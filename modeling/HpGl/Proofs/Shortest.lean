import HpGl.Proofs.Intervals
import HpGl.Proofs.ReadBack

/-!
# The fewest digits

No decimal with fewer digits is read as a double than the one that is written for it. If any
multiple of a power of ten lies in the interval of a double, then so does one of the two next to the
double, and the powers are tried from the coarsest on.

* `Decimal.significant`: the digits without zeros at either end; `significant_le`.
* `Binary.scale_bounds`: the power of ten above a double.
* **`onGrid_isSome`**: a grid that meets the interval is not passed over.
* `onGrid_seventeen`: seventeen digits suffice.
* **`shortest_fewest`**: no decimal in the interval has fewer digits.
-/

namespace HpGl

/-! ## Digits that count -/

namespace Decimal

/-- The number of significant digits: zeros at either end do not count. -/
def significant (d : Decimal) : ℕ := digitCount d.strip.digits

theorem digitCount_le_iff {n s : ℕ} : digitCount n ≤ s ↔ n < 10 ^ s := by
  unfold digitCount
  split
  · rename_i h
    simp [h]
  · rename_i h
    rcases Nat.eq_zero_or_pos s with rfl | hs
    · have hpos : 0 < (digitsOf n).length := Nat.length_toDigits_pos
      rw [pow_zero]
      omega
    · exact Nat.length_toDigits_le_iff (by decide) hs

theorem lt_pow_digitCount (n : ℕ) : n < 10 ^ digitCount n := digitCount_le_iff.mp le_rfl

theorem digitCount_pos {n : ℕ} (h : n ≠ 0) : 0 < digitCount n := by
  by_contra hcon
  have hlt := digitCount_le_iff.mp (not_lt.mp hcon)
  rw [pow_zero] at hlt
  omega

theorem pow_digitCount_le {n : ℕ} (h : n ≠ 0) : 10 ^ (digitCount n - 1) ≤ n := by
  have hpos := digitCount_pos h
  by_contra hlt
  have := digitCount_le_iff.mpr (not_le.mp hlt)
  omega

variable {d : Decimal}

theorem stripUpTo_mod {fuel : ℕ} (h : d.digits ≠ 0) (hlt : d.digits < 10 ^ fuel) :
    (stripUpTo fuel d).digits % 10 ≠ 0 := by
  induction fuel generalizing d with
  | zero =>
    rw [pow_zero] at hlt
    omega
  | succ fuel ih =>
    rw [stripUpTo]
    rw [pow_succ] at hlt
    split
    · exact ih (by simp only; omega) (by simp only; omega)
    · assumption

theorem strip_mod (h : d.digits ≠ 0) : d.strip.digits % 10 ≠ 0 := by
  rw [strip, if_neg h]
  exact stripUpTo_mod h (lt_pow_digitCount _)

theorem strip_digits_le {m : ℕ} {g : ℤ} (h : d.value = m * 10 ^ g) : d.strip.digits ≤ m := by
  by_cases hz : d.digits = 0
  · rw [strip, if_pos hz]
    exact Nat.zero_le m
  have hmod := strip_mod hz
  have heq : (d.strip.digits : ℚ) * 10 ^ d.strip.exponent = m * 10 ^ g := by
    rw [← h, ← strip_value d]
    rfl
  have hg : (10 : ℚ) ^ g ≠ 0 := zpow_ne_zero _ (by norm_num)
  rcases lt_or_ge d.strip.exponent g with hlt | hge
  · -- a finer grid than that of the other decimal would leave a zero
    obtain ⟨k, hk⟩ : ∃ k : ℕ, g = d.strip.exponent + (k + 1 : ℕ) :=
      ⟨(g - d.strip.exponent - 1).toNat, by omega⟩
    rw [hk, zpow_add₀ (by norm_num), zpow_natCast, mul_comm ((10 : ℚ) ^ _), ← mul_assoc] at heq
    have heq := mul_right_cancel₀ (zpow_ne_zero _ (by norm_num)) heq
    have heq : d.strip.digits = m * 10 ^ (k + 1) := by exact_mod_cast heq
    rw [heq, pow_succ, ← mul_assoc, Nat.mul_mod_left] at hmod
    exact absurd rfl hmod
  · obtain ⟨k, hk⟩ : ∃ k : ℕ, d.strip.exponent = g + k := ⟨(d.strip.exponent - g).toNat, by omega⟩
    rw [hk, zpow_add₀ (by norm_num), zpow_natCast, mul_comm ((10 : ℚ) ^ g), ← mul_assoc] at heq
    have heq := mul_right_cancel₀ hg heq
    have heq : d.strip.digits * 10 ^ k = m := by exact_mod_cast heq
    rw [← heq]
    exact Nat.le_mul_of_pos_right _ (by positivity)

theorem significant_le {m s : ℕ} {g : ℤ} (h : d.value = m * 10 ^ g) (hm : m ≤ 10 ^ s) (hs : s ≠ 0) :
    d.significant ≤ s := by
  have hle := strip_digits_le h
  rw [significant, digitCount_le_iff]
  refine lt_of_le_of_ne (hle.trans hm) fun heq => ?_
  by_cases hz : d.digits = 0
  · rw [strip, if_pos hz] at heq
    exact absurd heq (by positivity)
  · apply strip_mod hz
    rw [heq]
    exact Nat.mod_eq_zero_of_dvd (dvd_pow_self 10 hs)

theorem exists_significant (d : Decimal) :
    ∃ (m : ℕ) (g : ℤ), d.value = m * 10 ^ g ∧ m < 10 ^ d.significant :=
  ⟨d.strip.digits, d.strip.exponent, d.strip_value.symm, lt_pow_digitCount _⟩

theorem significant_congr {e : Decimal} (h : d.value = e.value) :
    d.significant = e.significant := by
  have hle {d e : Decimal} (h : d.value = e.value) : d.strip.digits ≤ e.strip.digits :=
    strip_digits_le (h.trans e.strip_value.symm)
  rw [significant, significant, le_antisymm (hle h) (hle h.symm)]

theorem significant_ne_zero (h : d.value ≠ 0) : d.significant ≠ 0 := by
  intro hs
  obtain ⟨m, g, hv, hm⟩ := d.exists_significant
  rw [hs, pow_zero, Nat.lt_one_iff] at hm
  rw [hm, Nat.cast_zero, zero_mul] at hv
  exact h hv

end Decimal

namespace Binary

open Decimal (digitCount digitCount_pos pow_digitCount_le lt_pow_digitCount)

variable {b : Binary}

/-! ## Grids -/

theorem scale_bounds (hm : b.mantissa ≠ 0) :
    10 ^ (b.scale - 1) ≤ b.value ∧ b.value < 10 ^ b.scale := by
  have hden := b.denominator_pos
  have hnum : 0 < b.numerator :=
    Nat.mul_pos (Nat.pos_of_ne_zero hm) (Nat.pow_pos (by decide))
  have hd : (0 : ℚ) < b.denominator := by exact_mod_cast hden
  have hn : (0 : ℚ) < b.numerator := by exact_mod_cast hnum
  rw [value_eq_quotient, scale]
  split
  · rename_i h
    -- the digits of the integer part
    have hne : b.numerator / b.denominator ≠ 0 := (Nat.div_pos h hden).ne'
    have hpos := digitCount_pos hne
    have hlo : 10 ^ (digitCount (b.numerator / b.denominator) - 1) * b.denominator ≤ b.numerator :=
      (Nat.mul_le_mul_right _ (pow_digitCount_le hne)).trans (Nat.div_mul_le_self _ _)
    have hhi : b.numerator < 10 ^ digitCount (b.numerator / b.denominator) * b.denominator :=
      (Nat.div_lt_iff_lt_mul hden).mp (lt_pow_digitCount _)
    generalize digitCount (b.numerator / b.denominator) = k at hpos hlo hhi
    have hk : (k : ℤ) - 1 = (k - 1 : ℕ) := by omega
    rw [hk, zpow_natCast, zpow_natCast, le_div_iff₀ hd, div_lt_iff₀ hd]
    exact ⟨by exact_mod_cast hlo, by exact_mod_cast hhi⟩
  · rename_i h
    -- the zeros behind the point
    have hne : (b.denominator - 1) / b.numerator ≠ 0 := (Nat.div_pos (by omega) hnum).ne'
    have hpos := digitCount_pos hne
    have hlo : b.denominator ≤
        10 ^ digitCount ((b.denominator - 1) / b.numerator) * b.numerator := by
      have hlt := lt_pow_digitCount ((b.denominator - 1) / b.numerator)
      have hlt := (Nat.div_lt_iff_lt_mul hnum).mp hlt
      omega
    have hhi : 10 ^ (digitCount ((b.denominator - 1) / b.numerator) - 1) * b.numerator <
        b.denominator := by
      have := (Nat.mul_le_mul_right b.numerator (pow_digitCount_le hne)).trans
        (Nat.div_mul_le_self _ _)
      omega
    generalize digitCount ((b.denominator - 1) / b.numerator) = k at hpos hlo hhi
    have hk : 1 - (k : ℤ) = -(k - 1 : ℕ) := by omega
    have hk' : 1 - (k : ℤ) - 1 = -k := by omega
    rw [hk', hk, zpow_neg, zpow_neg, zpow_natCast, zpow_natCast, inv_eq_one_div, inv_eq_one_div,
      div_le_div_iff₀ (by positivity) hd, div_lt_div_iff₀ hd (by positivity), one_mul]
    exact ⟨by rw [mul_comm]; exact_mod_cast hlo, by rw [mul_comm]; exact_mod_cast hhi⟩

section Grid

variable {tie : Tie} {g : ℤ}

/-- The point of a grid below a double. -/
def below (b : Binary) (g : ℤ) : ℕ := 4 * b.mantissa * b.quarter g / b.gridStep g

theorem gridStep_pos (b : Binary) (g : ℤ) : 0 < b.gridStep g :=
  Nat.mul_pos (Nat.pow_pos (by decide)) (Nat.pow_pos (by decide))

theorem below_bounds (b : Binary) (g : ℤ) :
    b.below g * 10 ^ g ≤ b.value ∧ b.value < (b.below g + 1) * 10 ^ g := by
  obtain ⟨u, hpos, hgrid, hquarter⟩ := b.exists_gridUnit g
  have hstep := b.gridStep_pos g
  have hvalue : b.value = (4 * b.mantissa * b.quarter g : ℕ) * u := by
    rw [Nat.cast_mul, mul_assoc, ← hquarter, value]
    push_cast
    ring
  have hle : b.below g * b.gridStep g ≤ 4 * b.mantissa * b.quarter g := Nat.div_mul_le_self _ _
  have hlt : 4 * b.mantissa * b.quarter g < (b.below g + 1) * b.gridStep g :=
    (Nat.div_lt_iff_lt_mul hstep).mp (Nat.lt_succ_self _)
  have hle : ((b.below g * b.gridStep g : ℕ) : ℚ) ≤ (4 * b.mantissa * b.quarter g : ℕ) :=
    Nat.cast_le.mpr hle
  have hlt : ((4 * b.mantissa * b.quarter g : ℕ) : ℚ) < ((b.below g + 1) * b.gridStep g : ℕ) :=
    Nat.cast_lt.mpr hlt
  rw [hvalue, hgrid, ← mul_assoc, ← mul_assoc]
  refine ⟨mul_le_mul_of_nonneg_right (le_of_eq_of_le ?_ hle) hpos.le,
    mul_lt_mul_of_pos_right (hlt.trans_eq ?_) hpos⟩
  · rw [Nat.cast_mul]
  · rw [Nat.cast_mul, Nat.cast_add_one]

theorem onGrid_eq (b : Binary) (tie : Tie) (g : ℤ) :
    b.onGrid tie g = match b.readsBack (b.below g) g, b.readsBack (b.below g + 1) g with
      | true, true => some (b.nearer tie (b.below g) g)
      | true, false => some (b.below g)
      | false, true => some (b.below g + 1)
      | false, false => none := rfl

/-- Of a grid only the two points next to the double are written. -/
theorem le_of_onGrid {d : ℕ} (h : b.onGrid tie g = some d) : d ≤ b.below g + 1 := by
  rw [onGrid_eq] at h
  split at h
  · rw [← Option.some.inj h]
    rcases nearer_eq (b := b) tie (b.below g) g with hk | hk <;> omega
  · rw [← Option.some.inj h]
    exact Nat.le_succ _
  · exact (Option.some.inj h).ge
  · exact nomatch h

/-- **A grid that meets the interval is not passed over**: a point next to the double is in the
interval too. -/
theorem onGrid_isSome (hm : b.mantissa ≠ 0) (tie : Tie) {c : ℕ} (hc : b.Rounds (c * 10 ^ g)) :
    (b.onGrid tie g).isSome = true := by
  have hp : (0 : ℚ) < 10 ^ g := zpow_pos (by norm_num) g
  obtain ⟨hlo, hhi⟩ := b.below_bounds g
  have hself := rounds_value hm
  have hnext : b.readsBack (b.below g) g = true ∨ b.readsBack (b.below g + 1) g = true := by
    rw [readsBack_iff, readsBack_iff, Decimal.value, Decimal.value, Nat.cast_add_one]
    rcases le_or_gt c (b.below g) with hle | hgt
    · left
      have hle : (c : ℚ) ≤ b.below g := Nat.cast_le.mpr hle
      exact hc.between hself (mul_le_mul_of_nonneg_right hle hp.le) hlo
    · right
      have hge : (b.below g + 1 : ℚ) ≤ c := by exact_mod_cast hgt
      exact hself.between hc hhi.le (mul_le_mul_of_nonneg_right hge hp.le)
  rw [onGrid_eq]
  rcases hnext with h | h
  · rw [h]
    split <;> simp_all
  · rw [h]
    split <;> simp_all

end Grid

/-! ## The search -/

/-- An interval is longer than its number in the seventeenth digit. -/
theorem lt_width (hb : b.Canonical) (hm : b.mantissa ≠ 0) {s : ℚ} (hs : s * 10 ^ 16 ≤ b.value) :
    s < b.upper / 4 * 2 ^ b.exponent - b.lower / 4 * 2 ^ b.exponent := by
  have hp := two_zpow_pos b.exponent
  rw [value] at hs
  rw [upper_eq]
  cases hn : b.narrowBelow with
  | true =>
    -- at a power of two the interval is shorter, but so is the number
    obtain ⟨hlead, he⟩ : b.mantissa = leadingBit ∧ -1074 < b.exponent := by
      simpa [narrowBelow] using hn
    rw [lower_of_leading hlead he]
    rw [hlead] at hs ⊢
    push_cast at hs ⊢
    linarith
  | false =>
    have hmantissa : (b.mantissa : ℚ) ≤ 2 * leadingBit := by exact_mod_cast hb.mantissa_lt.le
    have hle := mul_le_mul_of_nonneg_right hmantissa hp.le
    rw [lower_of_not_narrow hm hn]
    push_cast at hle
    linarith

/-- **Seventeen digits suffice.** -/
theorem onGrid_seventeen (hb : b.Canonical) (hm : b.mantissa ≠ 0) (tie : Tie) :
    (b.onGrid tie (b.scale - 1 - (16 : ℕ))).isSome = true := by
  obtain ⟨g, hg⟩ : ∃ g, g = b.scale - 1 - (16 : ℕ) := ⟨_, rfl⟩
  rw [← hg]
  have hstep : (10 : ℚ) ^ g * 10 ^ 16 ≤ b.value := by
    refine le_of_eq_of_le ?_ (scale_bounds hm).1
    rw [hg, zpow_sub₀ (by norm_num), zpow_natCast, div_mul_cancel₀ _ (by norm_num)]
  have hwidth := lt_width hb hm hstep
  obtain ⟨hlo, hhi⟩ := b.below_bounds g
  have hself := rounds_value hm
  -- the point below the double, or the one above it
  rcases lt_or_ge (b.lower / 4 * 2 ^ b.exponent : ℚ) (b.below g * 10 ^ g) with h | h
  · refine onGrid_isSome hm tie (c := b.below g) ?_
    have hlt := hself.1.2
    exact ⟨⟨h.le, hlo.trans hlt⟩, fun hodd => ⟨h, hlo.trans_lt (hself.2 hodd).2⟩⟩
  · refine onGrid_isSome hm tie (c := b.below g + 1) ?_
    have hupper : ((b.below g + 1 : ℕ) : ℚ) * 10 ^ g < b.upper / 4 * 2 ^ b.exponent := by
      rw [Nat.cast_add_one, add_mul, one_mul]
      linarith
    rw [← Nat.cast_add_one] at hhi
    exact ⟨⟨hself.1.1.trans hhi.le, hupper.le⟩,
      fun hodd => ⟨(hself.2 hodd).1.trans hhi, hupper⟩⟩

theorem exists_findSome?_range {α : Type} {f : ℕ → Option α} {N : ℕ}
    (h : ∃ n < N, (f n).isSome = true) :
    ∃ n a, f n = some a ∧ (∀ k < n, f k = none) ∧ (List.range N).findSome? f = some a := by
  obtain ⟨a, ha⟩ : ∃ a, (List.range N).findSome? f = some a := by
    obtain ⟨n, hn, hsome⟩ := h
    rw [← Option.isSome_iff_exists, List.isSome_findSome?, List.any_eq_true]
    exact ⟨n, List.mem_range.mpr hn, hsome⟩
  obtain ⟨l, n, r, hl, hn, hnone⟩ := List.findSome?_eq_some_iff.mp ha
  refine ⟨n, a, hn, fun k hk => hnone k ?_, ha⟩
  rw [List.range_eq_range', List.range'_eq_append_iff] at hl
  obtain ⟨j, hj, rfl, hr⟩ := hl
  obtain ⟨rfl, -⟩ := List.range'_eq_cons_iff.mp hr.symm
  rw [Nat.zero_add] at hk
  exact List.mem_range'_1.mpr ⟨Nat.zero_le k, by omega⟩

theorem exists_shortest (hb : b.Canonical) (hm : b.mantissa ≠ 0) (tie : Tie) :
    ∃ n c : ℕ, b.onGrid tie (b.scale - 1 - n) = some c ∧
      (∀ k < n, b.onGrid tie (b.scale - 1 - k) = none) ∧
      b.shortest tie = Decimal.strip ⟨c, b.scale - 1 - n⟩ := by
  obtain ⟨n, d, hn, hfirst, hfound⟩ := exists_findSome?_range
    (f := fun n => (b.onGrid tie (b.scale - 1 - n)).map fun c => (⟨c, b.scale - 1 - n⟩ : Decimal))
    ⟨16, (by decide : 16 < 17), by rw [Option.isSome_map]; exact onGrid_seventeen hb hm tie⟩
  obtain ⟨c, hc, rfl⟩ := Option.map_eq_some_iff.mp hn
  refine ⟨n, c, hc, fun k hk => Option.map_eq_none_iff.mp (hfirst k hk), ?_⟩
  rw [shortest, if_neg hm]
  simp only [hfound]

/-- **No decimal in the interval has fewer digits** than the one that is written. -/
theorem shortest_fewest (hb : b.Canonical) (hm : b.mantissa ≠ 0) (tie : Tie) {d : Decimal}
    (hd : b.Rounds d.value) : (b.shortest tie).significant ≤ d.significant := by
  obtain ⟨n, c, hc, hfirst, heq⟩ := exists_shortest hb hm tie
  obtain ⟨hscale, hscale'⟩ := scale_bounds hm
  have hten : (1 : ℚ) < 10 := by norm_num
  -- at most one digit more than the number of the grid
  have hwritten : (b.shortest tie).significant ≤ n + 1 := by
    have hp : (0 : ℚ) < 10 ^ (b.scale - 1 - n) := zpow_pos (by norm_num) _
    have hbelow : (b.below (b.scale - 1 - n) : ℚ) < (10 ^ (n + 1) : ℕ) := by
      refine lt_of_mul_lt_mul_right (((b.below_bounds _).1.trans_lt hscale').trans_eq ?_) hp.le
      rw [Nat.cast_pow, Nat.cast_ofNat, ← zpow_natCast, ← zpow_add₀ (by norm_num)]
      congr 1
      omega
    have hbelow : b.below (b.scale - 1 - n) < 10 ^ (n + 1) := by exact_mod_cast hbelow
    have hle := le_of_onGrid hc
    refine Decimal.significant_le (g := b.scale - 1 - n) ?_ (hle.trans hbelow) (Nat.succ_ne_zero n)
    rw [heq, Decimal.strip_value]
    rfl
  refine hwritten.trans ?_
  obtain ⟨m, g, hvalue, hmlt⟩ := d.exists_significant
  have hpos := Decimal.significant_ne_zero (hd.pos hm).ne'
  generalize d.significant = s at hmlt hpos
  by_contra hfew
  -- with fewer digits, an earlier grid would have met the interval
  have hgrid : ∃ c' : ℕ, b.Rounds (c' * 10 ^ (b.scale - 1 - (s - 1 : ℕ))) := by
    rcases le_or_gt (10 ^ (b.scale - 1)) d.value with hle | hlt
    · have hexp : b.scale - 1 < s + g := by
        refine (zpow_lt_zpow_iff_right₀ hten).mp (hle.trans_lt ?_)
        have hmlt : (m : ℚ) < 10 ^ s := by exact_mod_cast hmlt
        rw [hvalue, zpow_add₀ (by norm_num), zpow_natCast]
        exact mul_lt_mul_of_pos_right hmlt (zpow_pos (by norm_num) g)
      obtain ⟨k, hk⟩ : ∃ k : ℕ, g = b.scale - 1 - (s - 1 : ℕ) + k :=
        ⟨(g - (b.scale - 1 - (s - 1 : ℕ))).toNat, by omega⟩
      refine ⟨m * 10 ^ k, ?_⟩
      rw [hvalue, hk, zpow_add₀ (by norm_num), zpow_natCast] at hd
      convert hd using 1
      push_cast
      ring
    · refine ⟨10 ^ (s - 1), ?_⟩
      have hround := hd.between (rounds_value hm) hlt.le hscale
      convert hround using 1
      rw [Nat.cast_pow, Nat.cast_ofNat, ← zpow_natCast, ← zpow_add₀ (by norm_num)]
      congr 1
      omega
  obtain ⟨c', hc'⟩ := hgrid
  have hsome := onGrid_isSome hm tie hc'
  rw [hfirst (s - 1) (by omega)] at hsome
  exact nomatch hsome

end Binary

end HpGl
