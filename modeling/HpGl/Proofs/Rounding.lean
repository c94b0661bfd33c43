import Mathlib
import HpGl.Decimal.Nearest
import HpGl.Decimal.Shortest
import HpGl.Proofs.Number

/-!
# Rounding to a double

A double stands for an interval of numbers: those that are rounded to it. Every quotient in the
interval is read as the double, whatever numerator and denominator are.

* `Binary.value`, `Decimal.value`: the numbers themselves.
* `Binary.Rounds`: the interval of a double; its ends belong to it if the mantissa is even.
* `Binary.Canonical`, `Binary.bits`: mantissas and exponents of finite doubles, and their bits;
  `ofFloat_canonical`, `ofFloat_bits`.
* `roundHalfEven_eq`, `floorLog2_bounds`: the two steps of rounding.
* **`nearestBits_of_rounds`**, **`toFloat_of_rounds`**: what is in the interval is read as the
  double.
-/

namespace HpGl

/-! ## Powers with integer exponents -/

section Powers

theorem zpow_eq_div {a : ℚ} (ha : a ≠ 0) (q : ℤ) : a ^ q = a ^ q.toNat / a ^ (-q).toNat := by
  have hq : q = (q.toNat : ℤ) - ((-q).toNat : ℤ) := by omega
  calc a ^ q = a ^ ((q.toNat : ℤ) - ((-q).toNat : ℤ)) := by rw [← hq]
    _ = a ^ q.toNat / a ^ (-q).toNat := by rw [zpow_sub₀ ha, zpow_natCast, zpow_natCast]

theorem two_zpow_pos (q : ℤ) : (0 : ℚ) < 2 ^ q := zpow_pos (by norm_num) q

theorem two_zpow_add (q : ℤ) (n : ℕ) : (2 : ℚ) ^ (q + n) = 2 ^ q * 2 ^ n := by
  rw [zpow_add₀ (by norm_num), zpow_natCast]

theorem two_zpow_sub (q : ℤ) (n : ℕ) : (2 : ℚ) ^ (q - n) = 2 ^ q / 2 ^ n := by
  rw [zpow_sub₀ (by norm_num), zpow_natCast]

theorem lt_of_two_zpow {x : ℚ} {l q : ℤ} (hl : 2 ^ l ≤ x) (hq : x < 2 ^ q) : l < q :=
  (zpow_lt_zpow_iff_right₀ (by norm_num)).mp (hl.trans_lt hq)

end Powers

/-! ## Rounding to an integer -/

theorem roundHalfEven_eq {num den m : ℕ} (hden : 0 < den)
    (hlo : (m : ℚ) - 1 / 2 ≤ (num : ℚ) / den) (hhi : (num : ℚ) / den ≤ m + 1 / 2)
    (hodd : m % 2 = 1 → (m : ℚ) - 1 / 2 < (num : ℚ) / den ∧ (num : ℚ) / den < m + 1 / 2) :
    roundHalfEven num den = m := by
  have hd : (0 : ℚ) < den := by exact_mod_cast hden
  have hr : num % den < den := Nat.mod_lt _ hden
  have hnum : den * (num / den) + num % den = num := Nat.div_add_mod num den
  rw [le_div_iff₀ hd] at hlo
  rw [div_le_iff₀ hd] at hhi
  rw [lt_div_iff₀ hd, div_lt_iff₀ hd] at hodd
  -- the same bounds without fractions
  have hlo' : 2 * m * den ≤ 2 * num + den := by
    have : (2 * m * den : ℚ) ≤ 2 * num + den := by linarith
    exact_mod_cast this
  have hhi' : 2 * num ≤ 2 * m * den + den := by
    have : (2 * num : ℚ) ≤ 2 * m * den + den := by linarith
    exact_mod_cast this
  have hodd' : m % 2 = 1 → 2 * m * den < 2 * num + den ∧ 2 * num < 2 * m * den + den := by
    intro h
    have h₁ : (2 * m * den : ℚ) < 2 * num + den := by linarith [(hodd h).1]
    have h₂ : (2 * num : ℚ) < 2 * m * den + den := by linarith [(hodd h).2]
    exact ⟨by exact_mod_cast h₁, by exact_mod_cast h₂⟩
  unfold roundHalfEven
  generalize num / den = q at hnum ⊢
  generalize num % den = r at hr hnum ⊢
  subst hnum
  have hm : m = q ∨ m = q + 1 := by
    have h₁ : m ≤ q + 1 := by
      by_contra h
      have : (q + 2) * den ≤ m * den := Nat.mul_le_mul_right _ (by omega)
      nlinarith
    have h₂ : q ≤ m := by
      by_contra h
      have : (m + 1) * den ≤ q * den := Nat.mul_le_mul_right _ (by omega)
      nlinarith
    omega
  rcases hm with rfl | rfl
  · have hle : 2 * r ≤ den := by nlinarith
    have hlt : m % 2 = 1 → 2 * r < den := by
      intro h
      have := (hodd' h).2
      nlinarith
    rcases hle.lt_or_eq with h | h
    · rw [Nat.compare_eq_lt.mpr h]
    · rw [Nat.compare_eq_eq.mpr h]
      have : m % 2 = 0 := by
        by_contra hne
        have := hlt (by omega)
        omega
      simp only
      omega
  · have hle : den ≤ 2 * r := by nlinarith
    have hlt : (q + 1) % 2 = 1 → den < 2 * r := by
      intro h
      have := (hodd' h).1
      nlinarith
    rcases hle.lt_or_eq with h | h
    · rw [Nat.compare_eq_gt.mpr h]
    · rw [Nat.compare_eq_eq.mpr h.symm]
      have : (q + 1) % 2 = 0 := by
        by_contra hne
        have := hlt (by omega)
        omega
      simp only
      omega

/-! ## The binary order of magnitude -/

section FloorLog

variable {num den : ℕ}

theorem floorLog2_bounds (hnum : 0 < num) (hden : 0 < den) :
    (2 : ℚ) ^ floorLog2 num den ≤ (num : ℚ) / den ∧
      (num : ℚ) / den < 2 ^ (floorLog2 num den + 1) := by
  have hd : (0 : ℚ) < den := by exact_mod_cast hden
  have hn₁ : (2 : ℚ) ^ num.log2 ≤ num := by exact_mod_cast Nat.log2_self_le hnum.ne'
  have hn₂ : (num : ℚ) < 2 ^ (num.log2 + 1) := by exact_mod_cast Nat.lt_log2_self
  have hd₁ : (2 : ℚ) ^ den.log2 ≤ den := by exact_mod_cast Nat.log2_self_le hden.ne'
  have hd₂ : (den : ℚ) < 2 ^ (den.log2 + 1) := by exact_mod_cast Nat.lt_log2_self
  unfold floorLog2
  simp only [Nat.pow_eq]
  generalize hl : (num.log2 : ℤ) - den.log2 = l
  have hpow : (2 : ℚ) ^ l = 2 ^ num.log2 / 2 ^ den.log2 := by
    rw [← hl, zpow_sub₀ (by norm_num), zpow_natCast, zpow_natCast]
  -- the test compares the quotient with the power
  have htest : num * 2 ^ (-l).toNat < den * 2 ^ l.toNat ↔ (num : ℚ) / den < 2 ^ l := by
    rw [zpow_eq_div (by norm_num) l, div_lt_div_iff₀ hd (by positivity)]
    constructor
    · intro h
      have : ((num * 2 ^ (-l).toNat : ℕ) : ℚ) < ((den * 2 ^ l.toNat : ℕ) : ℚ) := by exact_mod_cast h
      push_cast at this
      linarith
    · intro h
      have : ((num * 2 ^ (-l).toNat : ℕ) : ℚ) < ((den * 2 ^ l.toNat : ℕ) : ℚ) := by
        push_cast
        linarith
      exact_mod_cast this
  have hupper : (num : ℚ) / den < 2 ^ (l + 1) := by
    rw [zpow_add_one₀ (by norm_num), hpow, div_mul_eq_mul_div, ← pow_succ]
    exact div_lt_div₀ hn₂ hd₁ (by positivity) (by positivity)
  split
  · rename_i h
    refine ⟨?_, by simpa using htest.mp h⟩
    rw [zpow_sub_one₀ (by norm_num), hpow, div_mul_eq_mul_div, div_le_div_iff₀ (by positivity) hd]
    rw [pow_succ] at hd₂
    nlinarith [show (0 : ℚ) < 2 ^ num.log2 by positivity]
  · rename_i h
    exact ⟨not_lt.mp (mt htest.mpr h), hupper⟩

end FloorLog

/-! ## Doubles -/

namespace Binary

/-- The number itself, without its sign. -/
def value (b : Binary) : ℚ := b.mantissa * 2 ^ b.exponent

theorem denominator_pos (b : Binary) : 0 < b.denominator := Nat.pow_pos (by decide)

theorem value_eq_quotient (b : Binary) : b.value = (b.numerator : ℚ) / b.denominator := by
  rw [value, numerator, denominator, Nat.pow_eq, Nat.pow_eq, zpow_eq_div (by norm_num) b.exponent]
  push_cast
  rw [mul_div_assoc]

theorem value_nonneg (b : Binary) : 0 ≤ b.value :=
  mul_nonneg (Nat.cast_nonneg _) (two_zpow_pos _).le

/-- **The numbers that are rounded to a double.** The ends of the interval belong to it if the
mantissa is even. -/
def Rounds (b : Binary) (x : ℚ) : Prop :=
  (b.lower / 4 * 2 ^ b.exponent ≤ x ∧ x ≤ b.upper / 4 * 2 ^ b.exponent) ∧
    (b.mantissa % 2 = 1 → b.lower / 4 * 2 ^ b.exponent < x ∧ x < b.upper / 4 * 2 ^ b.exponent)

/-- The mantissa and the exponent of a finite double. -/
structure Canonical (b : Binary) : Prop where
  mantissa_lt : b.mantissa < 2 * leadingBit
  le_exponent : -1074 ≤ b.exponent
  exponent_le : b.exponent ≤ 971
  /-- Only at the lowest exponent the leading bit may be missing. -/
  leading : -1074 < b.exponent → leadingBit ≤ b.mantissa

/-- The bits of a double without the sign bit. -/
def bits (b : Binary) : ℕ := (b.exponent + 1074).toNat * leadingBit + b.mantissa

theorem ofFloat_canonical {x : Float} (hx : x.isFinite = true) : (ofFloat x).Canonical := by
  have he : magnitudeBits x / leadingBit < 2047 := isFinite_iff.mp hx
  unfold ofFloat ofMagnitudeBits
  unfold leadingBit at he ⊢
  split
  · constructor <;> simp only [leadingBit] <;> omega
  · constructor <;> simp only [leadingBit] <;> omega

theorem ofFloat_bits (x : Float) : (ofFloat x).bits = magnitudeBits x := by
  unfold bits ofFloat ofMagnitudeBits leadingBit
  split
  · simp
  · simp only
    omega

theorem signedFloat_magnitudeBits (x : Float) :
    signedFloat (signBit x) (magnitudeBits x) = x := by
  have hx : x.toBits.toNat < 0x10000000000000000 := x.toBits.toNat_lt
  have hbits : magnitudeBits x + (if signBit x then signWeight else 0) = x.toBits.toNat := by
    simp only [signBit, magnitudeBits, decide_eq_true_eq, signWeight]
    split <;> omega
  rw [signedFloat, hbits, UInt64.ofNat_toNat, Float.ofBits_toBits]

variable {b : Binary}

theorem Rounds.pos (hm : b.mantissa ≠ 0) {x : ℚ} (hx : b.Rounds x) : 0 < x := by
  have hlower : (0 : ℚ) < b.lower := by exact_mod_cast lower_pos hm
  exact (mul_pos (div_pos hlower (by norm_num)) (two_zpow_pos _)).trans_le hx.1.1

theorem upper_eq (b : Binary) : (b.upper : ℚ) = 4 * b.mantissa + 2 := by
  unfold upper
  push_cast
  ring

theorem le_lower (b : Binary) : 4 * (b.mantissa : ℚ) - 2 ≤ b.lower := by
  have : 4 * b.mantissa ≤ b.lower + 2 := by
    unfold lower
    split <;> omega
  have : (4 * b.mantissa : ℚ) ≤ b.lower + 2 := by exact_mod_cast this
  linarith

/-- **A double is rounded to itself.** -/
theorem rounds_value (hm : b.mantissa ≠ 0) : b.Rounds b.value := by
  have hp := two_zpow_pos b.exponent
  have hlower : (b.lower : ℚ) + 1 ≤ 4 * b.mantissa := by
    have : b.lower + 1 ≤ 4 * b.mantissa := by
      unfold lower
      split <;> omega
    exact_mod_cast this
  have hupper := b.upper_eq
  have hlo : b.lower / 4 * 2 ^ b.exponent < b.value :=
    mul_lt_mul_of_pos_right (by linarith) hp
  have hhi : b.value < b.upper / 4 * 2 ^ b.exponent :=
    mul_lt_mul_of_pos_right (by linarith) hp
  exact ⟨⟨hlo.le, hhi.le⟩, fun _ => ⟨hlo, hhi⟩⟩

/-- Below a power of two lies half of an interval that is shorter than the other half. -/
theorem lower_of_leading (h : b.mantissa = leadingBit) (he : -1074 < b.exponent) :
    (b.lower : ℚ) = 4 * 2 ^ 52 - 1 := by
  have hn : b.narrowBelow = true := by simp [narrowBelow, h, he]
  rw [lower, if_pos hn, h]
  norm_num

theorem lower_of_not_narrow (hm : b.mantissa ≠ 0) (h : b.narrowBelow = false) :
    (b.lower : ℚ) = 4 * b.mantissa - 2 := by
  have hsum : b.lower + 2 = 4 * b.mantissa := by
    rw [lower, h, if_neg Bool.false_ne_true]
    omega
  have hsum : (b.lower : ℚ) + 2 = 4 * b.mantissa := by exact_mod_cast hsum
  linarith

/-- The exponent at which a quotient is rounded is that of the double, or the one below it for
what lies below a power of two. -/
theorem roundingExponent (hb : b.Canonical) {x : ℚ} (hx : b.Rounds x) {l : ℤ}
    (hl₁ : 2 ^ l ≤ x) (hl₂ : x < 2 ^ (l + 1)) :
    max (-1074) (l - 52) = b.exponent ∨
      (max (-1074) (l - 52) = b.exponent - 1 ∧ b.mantissa = leadingBit ∧ -1074 < b.exponent ∧
        x < 2 ^ 52 * 2 ^ b.exponent) := by
  have hp := two_zpow_pos b.exponent
  have hlo := hx.1.1
  have hhi := hx.1.2
  have hge := hb.le_exponent
  rw [upper_eq] at hhi
  have hlt : (b.mantissa : ℚ) + 1 ≤ 2 ^ 53 := by
    have : b.mantissa + 1 ≤ 2 ^ 53 := hb.mantissa_lt
    exact_mod_cast this
  have hl : l < b.exponent + (53 : ℕ) := by
    refine lt_of_two_zpow hl₁ (hhi.trans_lt ?_)
    rw [two_zpow_add, mul_comm]
    exact mul_lt_mul_of_pos_left (by linarith) hp
  rcases hge.eq_or_lt with he | he
  · exact .inl (by omega)
  have hlead := hb.leading he
  by_cases hbelow : b.mantissa = leadingBit ∧ x < 2 ^ 52 * 2 ^ b.exponent
  · right
    have hlower := lower_of_leading hbelow.1 he
    have hl' : b.exponent + (51 : ℕ) < l + 1 := by
      refine lt_of_two_zpow (le_trans ?_ hlo) hl₂
      rw [two_zpow_add, mul_comm, hlower]
      exact mul_le_mul_of_nonneg_right (by norm_num) hp.le
    have hl'' : l < b.exponent + (52 : ℕ) := by
      refine lt_of_two_zpow hl₁ (hbelow.2.trans_eq ?_)
      rw [two_zpow_add, mul_comm]
    exact ⟨by omega, hbelow.1, he, hbelow.2⟩
  · left
    have hle : 2 ^ 52 * 2 ^ b.exponent ≤ x := by
      by_contra hcon
      have hne : b.mantissa ≠ leadingBit := fun h => hbelow ⟨h, not_le.mp hcon⟩
      have hmore : (2 : ℚ) ^ 52 + 1 ≤ b.mantissa := by
        have : leadingBit + 1 ≤ b.mantissa := Nat.lt_of_le_of_ne hlead hne.symm
        exact_mod_cast this
      refine hcon (le_trans ?_ hlo)
      exact mul_le_mul_of_nonneg_right (by linarith [b.le_lower]) hp.le
    have hl' : b.exponent + (52 : ℕ) < l + 1 := by
      refine lt_of_two_zpow (le_trans (le_of_eq ?_) hle) hl₂
      rw [two_zpow_add, mul_comm]
    omega

theorem scaled_div (num den : ℕ) (q : ℤ) :
    ((num * Nat.pow 2 (-q).toNat : ℕ) : ℚ) / (den * Nat.pow 2 q.toNat : ℕ) =
      num / den / 2 ^ q := by
  rw [zpow_eq_div (by norm_num) q, Nat.pow_eq, Nat.pow_eq]
  push_cast
  rw [div_div, mul_div_assoc', div_div_eq_mul_div]

/-- **Every quotient in the interval of a double is read as the double.** -/
theorem nearestBits_of_rounds (hb : b.Canonical) (hm : b.mantissa ≠ 0) {num den : ℕ}
    (hden : 0 < den) (hx : b.Rounds (num / den)) : nearestBits num den = b.bits := by
  have hd : (0 : ℚ) < den := by exact_mod_cast hden
  have hnum : 0 < num := by
    have := (div_pos_iff_of_pos_right hd).mp (hx.pos hm)
    exact_mod_cast this
  obtain ⟨hl₁, hl₂⟩ := floorLog2_bounds hnum hden
  have hfits : b.bits < infinityBits := by
    have := hb.mantissa_lt
    have := hb.exponent_le
    simp only [bits, infinityBits, leadingBit] at *
    omega
  have hp := two_zpow_pos b.exponent
  have hupper := b.upper_eq
  have hlower := b.le_lower
  have hq := roundingExponent hb hx hl₁ hl₂
  obtain ⟨⟨hlo, hhi⟩, hodd⟩ := hx
  rw [← le_div_iff₀ hp] at hlo
  rw [← div_le_iff₀ hp] at hhi
  rw [← lt_div_iff₀ hp, ← div_lt_iff₀ hp] at hodd
  unfold nearestBits
  rw [if_neg hnum.ne']
  simp only
  generalize max (-1074) (floorLog2 num den - 52) = q at hq
  have hdq : 0 < den * Nat.pow 2 q.toNat := Nat.mul_pos hden (Nat.pow_pos (by decide))
  have hround : ((q + 1074).toNat * leadingBit +
      roundHalfEven (num * Nat.pow 2 (-q).toNat) (den * Nat.pow 2 q.toNat)) = b.bits := by
    rcases hq with rfl | ⟨rfl, hlead, he, hbelow⟩
    · have hm' : roundHalfEven (num * Nat.pow 2 (-b.exponent).toNat)
          (den * Nat.pow 2 b.exponent.toNat) = b.mantissa := by
        apply roundHalfEven_eq hdq <;> rw [scaled_div]
        · linarith
        · linarith
        · intro h
          obtain ⟨h₁, h₂⟩ := hodd h
          exact ⟨by linarith, by linarith⟩
      rw [hm', bits]
    · -- one place below, the interval lies below the next power of two and is rounded up to it
      rw [← div_lt_iff₀ hp] at hbelow
      rw [lower_of_leading hlead he] at hlo
      have hm' : roundHalfEven (num * Nat.pow 2 (-(b.exponent - 1)).toNat)
          (den * Nat.pow 2 (b.exponent - 1).toNat) = 2 * leadingBit := by
        have hhalf : (num : ℚ) / den / 2 ^ (b.exponent - 1) = 2 * (num / den / 2 ^ b.exponent) := by
          rw [zpow_sub_one₀ (by norm_num)]
          field_simp
        apply roundHalfEven_eq hdq <;> rw [scaled_div, hhalf]
        · push_cast
          linarith
        · push_cast
          linarith
        · intro h
          exact absurd h (by decide)
      have he' : (b.exponent + 1074).toNat = (b.exponent - 1 + 1074).toNat + 1 := by omega
      rw [hm', bits, he', hlead]
      ring
  rw [hround]
  omega

theorem Rounds.bounds (hb : b.Canonical) (hm : b.mantissa ≠ 0) {x : ℚ} (hx : b.Rounds x) :
    2 ^ (-1076 : ℤ) ≤ x ∧ x ≤ 2 ^ (1024 : ℤ) := by
  have hp := two_zpow_pos b.exponent
  have hmantissa : (b.mantissa : ℚ) + 1 ≤ 2 ^ 53 := by
    have : b.mantissa + 1 ≤ 2 ^ 53 := hb.mantissa_lt
    exact_mod_cast this
  have hlower : (1 : ℚ) ≤ b.lower := by exact_mod_cast lower_pos hm
  constructor
  · have hle : (2 : ℚ) ^ (-1074 : ℤ) ≤ 2 ^ b.exponent :=
      zpow_le_zpow_right₀ (by norm_num) hb.le_exponent
    calc (2 : ℚ) ^ (-1076 : ℤ) = 1 / 4 * 2 ^ (-1074 : ℤ) := by
          rw [show (-1076 : ℤ) = -1074 - (2 : ℕ) by norm_num, two_zpow_sub]
          ring
      _ ≤ b.lower / 4 * 2 ^ b.exponent :=
          mul_le_mul (by linarith) hle (two_zpow_pos _).le (by positivity)
      _ ≤ x := hx.1.1
  · have hle : (2 : ℚ) ^ b.exponent ≤ 2 ^ (971 : ℤ) :=
      zpow_le_zpow_right₀ (by norm_num) hb.exponent_le
    calc x ≤ b.upper / 4 * 2 ^ b.exponent := hx.1.2
      _ ≤ 2 ^ 53 * 2 ^ (971 : ℤ) :=
          mul_le_mul (by rw [upper_eq]; linarith) hle hp.le (by positivity)
      _ = 2 ^ (1024 : ℤ) := by
          rw [show (1024 : ℤ) = 971 + (53 : ℕ) by norm_num, two_zpow_add]
          ring

end Binary

/-! ## Decimals -/

namespace Decimal

/-- The number itself. -/
def value (d : Decimal) : ℚ := d.digits * 10 ^ d.exponent

theorem value_eq_div (d : Decimal) :
    d.value = ((d.digits * Nat.pow 10 d.exponent.toNat : ℕ) : ℚ) /
      (Nat.pow 10 (-d.exponent).toNat : ℕ) := by
  rw [value, zpow_eq_div (by norm_num) d.exponent, Nat.pow_eq, Nat.pow_eq]
  push_cast
  rw [mul_div_assoc]

theorem leading_bounds {d : Decimal} (h : d.digits ≠ 0) :
    10 ^ d.leading ≤ d.value ∧ d.value < 10 ^ (d.leading + 1) := by
  have hp : (0 : ℚ) < 10 ^ d.exponent := zpow_pos (by norm_num) _
  have hpos : 0 < (digitsOf d.digits).length := Nat.length_toDigits_pos
  have hlt : d.digits < 10 ^ (digitsOf d.digits).length :=
    (Nat.length_toDigits_le_iff (by decide) hpos).mp le_rfl
  have hle : 10 ^ ((digitsOf d.digits).length - 1) ≤ d.digits := by
    rcases Nat.eq_zero_or_pos ((digitsOf d.digits).length - 1) with h1 | h1
    · rw [h1]
      omega
    · by_contra hcon
      have := (Nat.length_toDigits_le_iff (by decide) h1).mpr (not_le.mp hcon)
      unfold digitsOf at *
      omega
  unfold leading digitCount value
  rw [if_neg h, if_neg h]
  generalize (digitsOf d.digits).length = n at *
  constructor
  · have hn : d.exponent + n - 1 = d.exponent + ((n - 1 : ℕ) : ℤ) := by omega
    rw [hn, zpow_add₀ (by norm_num), zpow_natCast, mul_comm]
    have : (10 : ℚ) ^ (n - 1) ≤ d.digits := by exact_mod_cast hle
    exact mul_le_mul_of_nonneg_right this hp.le
  · have hn : d.exponent + n - 1 + 1 = d.exponent + (n : ℤ) := by omega
    rw [hn, zpow_add₀ (by norm_num), zpow_natCast, mul_comm]
    have : (d.digits : ℚ) < 10 ^ n := by exact_mod_cast hlt
    exact mul_lt_mul_of_pos_left this hp

theorem two_pow_le : (2 : ℚ) ^ 1023 ≤ 10 ^ 308 := by
  calc (2 : ℚ) ^ 1023 = (2 ^ 93) ^ 11 := by rw [← pow_mul]
    _ ≤ (10 ^ 28) ^ 11 := pow_le_pow_left₀ (by norm_num) (by norm_num) 11
    _ = 10 ^ 308 := by rw [← pow_mul]

theorem two_zpow_lt : (2 : ℚ) ^ (1024 : ℤ) < 10 ^ (311 : ℤ) := by
  calc (2 : ℚ) ^ (1024 : ℤ) = 2 ^ 1023 * 2 := (zpow_natCast (2 : ℚ) 1024).trans (pow_succ 2 1023)
    _ < 10 ^ 308 * 10 ^ 3 :=
        mul_lt_mul_of_le_of_lt_of_pos_of_nonneg two_pow_le (by norm_num) (by positivity)
          (by positivity)
    _ = 10 ^ (311 : ℤ) := by rw [← pow_add]; exact (zpow_natCast (10 : ℚ) 311).symm

theorem ten_zpow_lt : (10 : ℚ) ^ (-330 : ℤ) < 2 ^ (-1076 : ℤ) := by
  have h : (2 : ℚ) ^ 1076 < 10 ^ 330 := by
    calc (2 : ℚ) ^ 1076 = 2 ^ 1023 * 2 ^ 53 := by rw [← pow_add]
      _ < 10 ^ 308 * 10 ^ 22 :=
          mul_lt_mul_of_le_of_lt_of_pos_of_nonneg two_pow_le (by norm_num) (by positivity)
            (by positivity)
      _ = 10 ^ 330 := by rw [← pow_add]
  rw [zpow_neg, zpow_neg]
  exact inv_strictAnti₀ (by positivity) (by exact_mod_cast h)

variable {b : Binary} {d : Decimal}

/-- **A decimal in the interval of a double is read as the double.** -/
theorem nearestBits_of_rounds (hb : b.Canonical) (hm : b.mantissa ≠ 0) (hd : b.Rounds d.value) :
    d.nearestBits = b.bits := by
  have hpos := hd.pos hm
  have hz : d.digits ≠ 0 := by
    intro h
    rw [value, h] at hpos
    simp at hpos
  obtain ⟨hlo, hhi⟩ := hd.bounds hb hm
  obtain ⟨hlead, hlead'⟩ := leading_bounds hz
  have hten : (1 : ℚ) < 10 := by norm_num
  have hhigh : ¬ 310 < d.leading := by
    intro h
    have : d.leading < 311 :=
      (zpow_lt_zpow_iff_right₀ hten).mp ((hlead.trans hhi).trans_lt two_zpow_lt)
    omega
  have hlow : ¬ d.leading < -330 := by
    intro h
    have : (-330 : ℤ) < d.leading + 1 :=
      (zpow_lt_zpow_iff_right₀ hten).mp ((ten_zpow_lt.trans_le hlo).trans hlead')
    omega
  unfold nearestBits
  rw [if_neg hz, if_neg hhigh, if_neg hlow]
  refine Binary.nearestBits_of_rounds hb hm (Nat.pow_pos (by decide)) ?_
  rwa [← value_eq_div]

/-- **What is in the interval of a finite double is read as the double**, with its sign. -/
theorem toFloat_of_rounds {x : Float} (hx : x.isFinite = true)
    (hm : (Binary.ofFloat x).mantissa ≠ 0) (hd : (Binary.ofFloat x).Rounds d.value) :
    toFloat (Binary.signBit x) d = x := by
  rw [toFloat, nearestBits_of_rounds (Binary.ofFloat_canonical hx) hm hd, Binary.ofFloat_bits,
    Binary.signedFloat_magnitudeBits]

end Decimal

end HpGl
