import HpGl.Primitive
import HpGl.Proofs.Comparison

/-!
# Snapping to whole degrees

A number closer than `snapWidth` to an integer becomes that integer, and any other number loses its
fraction. Numbers of zero and above become the last integer that they exceed by more than
`-snapWidth`, so the rule is monotone, and it treats both signs alike.

* `truncate`, `snapped`: the rule on exact numbers; `snapped_of_near`, `snapped_of_far`.
* **`snapped_of_nonneg`**, `snapped_neg`, `snapped_mono`: one formula behind both cases.
* `wholeMagnitude_eq_snapped`, **`wholeDegrees_eq_saturate_snapped`**: the program follows the rule.
* `abs_sub_lt_degreeSnap_iff`: doubles are near when their exact numbers are.
* **`wholeDegrees_snaps`**: whole degrees of numbers within 32 bits, and of all numbers in order.
-/

namespace HpGl

open Binary

/-! ## The rule -/

/-- An integer is near when it is closer than this. -/
def snapWidth : ℚ := (ofFloat degreeSnap).value

/-- The integer part, that is the next integer toward zero. -/
def truncate (q : ℚ) : ℤ := if 0 ≤ q then ⌊q⌋ else ⌈q⌉

/-- **The rule for degrees**: the nearest integer if it is near, else the integer part. -/
def snapped (q : ℚ) : ℤ := if |q - round q| < snapWidth then round q else truncate q

theorem snapWidth_eq : snapWidth = 4835703278458517 / 2 ^ 82 := by
  have h : ofFloat degreeSnap = ⟨false, 4835703278458517, -82⟩ := by decide +kernel
  rw [snapWidth, h, value]
  norm_num

theorem snapWidth_pos : 0 < snapWidth := by
  rw [snapWidth_eq]
  norm_num

theorem snapWidth_lt : snapWidth < 1 / 2 := by
  rw [snapWidth_eq]
  norm_num

section Rule

variable {p q : ℚ} {m n : ℤ}

theorem eq_of_near (hm : |q - m| < snapWidth) (hn : |q - n| < snapWidth) : m = n := by
  have hwidth := snapWidth_lt
  rw [abs_lt] at hm hn
  have hlt : (m : ℚ) < n + 1 := by linarith
  have hgt : (n : ℚ) < m + 1 := by linarith
  have hlt : m < n + 1 := by exact_mod_cast hlt
  have hgt : n < m + 1 := by exact_mod_cast hgt
  omega

theorem snapped_of_near (h : |q - m| < snapWidth) : snapped q = m := by
  have hround : |q - round q| < snapWidth := (round_le q m).trans_lt h
  rw [snapped, if_pos hround]
  exact eq_of_near hround h

theorem snapped_of_far (h : ∀ m : ℤ, snapWidth ≤ |q - m|) : snapped q = truncate q :=
  if_neg (h (round q)).not_gt

theorem near_or_far (q : ℚ) : (∃ m : ℤ, |q - m| < snapWidth) ∨ ∀ m : ℤ, snapWidth ≤ |q - m| := by
  by_cases h : ∃ m : ℤ, |q - m| < snapWidth
  · exact .inl h
  · exact .inr fun m => not_lt.mp fun hm => h ⟨m, hm⟩

theorem snapped_intCast (m : ℤ) : snapped m = m :=
  snapped_of_near (by rw [sub_self, abs_zero]; exact snapWidth_pos)

theorem truncate_neg (q : ℚ) : truncate (-q) = -truncate q := by
  rcases lt_trichotomy q 0 with h | h | h
  · rw [truncate, truncate, if_pos (neg_nonneg.mpr h.le), if_neg h.not_ge, Int.floor_neg]
  · rw [h]
    rfl
  · rw [truncate, truncate, if_neg (by simpa using h), if_pos h.le, Int.ceil_neg]

theorem snapped_neg (q : ℚ) : snapped (-q) = -snapped q := by
  have hflip (m : ℤ) : |-q - ((-m : ℤ) : ℚ)| = |q - m| := by
    rw [Int.cast_neg, ← neg_sub', abs_neg]
  rcases near_or_far q with ⟨m, hm⟩ | hfar
  · rw [snapped_of_near hm]
    exact snapped_of_near ((hflip m).trans_lt hm)
  · rw [snapped_of_far hfar, ← truncate_neg]
    refine snapped_of_far fun m => ?_
    rw [← neg_neg m, hflip]
    exact hfar (-m)

/-- **One formula for both cases**: an integer is reached when less than `snapWidth` is missing. -/
theorem snapped_of_nonneg (hq : 0 ≤ q) : snapped q = ⌈q + snapWidth⌉ - 1 := by
  have hpos := snapWidth_pos
  have hhalf := snapWidth_lt
  suffices h : (snapped q : ℚ) < q + snapWidth ∧ q + snapWidth ≤ (snapped q + 1 : ℤ) by
    have hceil : ⌈q + snapWidth⌉ = snapped q + 1 :=
      Int.ceil_eq_iff.mpr ⟨by push_cast; linarith [h.1], h.2⟩
    omega
  push_cast
  rcases near_or_far q with ⟨m, hm⟩ | hfar
  · rw [snapped_of_near hm]
    rw [abs_lt] at hm
    constructor <;> linarith
  · -- the next integer is not near either
    have hnext := hfar (⌊q⌋ + 1)
    have hlt := Int.lt_floor_add_one q
    have hle := Int.floor_le q
    rw [snapped_of_far hfar, truncate, if_pos hq]
    push_cast at hnext
    rw [abs_of_neg (by linarith)] at hnext
    constructor <;> linarith

theorem snapped_nonneg (hq : 0 ≤ q) : 0 ≤ snapped q := by
  have hceil : 0 < ⌈q + snapWidth⌉ := Int.ceil_pos.mpr (add_pos_of_nonneg_of_pos hq snapWidth_pos)
  rw [snapped_of_nonneg hq]
  omega

theorem snapped_nonpos (hq : q ≤ 0) : snapped q ≤ 0 := by
  have h := snapped_nonneg (neg_nonneg.mpr hq)
  rw [snapped_neg] at h
  omega

/-- **The rule keeps the order.** -/
theorem snapped_mono (h : p ≤ q) : snapped p ≤ snapped q := by
  have hnonneg {p q : ℚ} (hp : 0 ≤ p) (h : p ≤ q) : snapped p ≤ snapped q := by
    have hceil : ⌈p + snapWidth⌉ ≤ ⌈q + snapWidth⌉ := Int.ceil_le_ceil (by linarith)
    rw [snapped_of_nonneg hp, snapped_of_nonneg (hp.trans h)]
    omega
  rcases le_total 0 p with hp | hp
  · exact hnonneg hp h
  rcases le_total 0 q with hq | hq
  · exact (snapped_nonpos hp).trans (snapped_nonneg hq)
  · have hopposite := hnonneg (neg_nonneg.mpr hq) (neg_le_neg h)
    rw [snapped_neg, snapped_neg] at hopposite
    omega

theorem abs_snapped (q : ℚ) : |snapped q| = snapped |q| := by
  rcases le_total 0 q with h | h
  · rw [abs_of_nonneg h, abs_of_nonneg (snapped_nonneg h)]
  · rw [abs_of_nonpos h, abs_of_nonpos (snapped_nonpos h), snapped_neg]

theorem abs_snapped_bounds (q : ℚ) :
    ((|snapped q| : ℤ) : ℚ) ≤ |q| + snapWidth ∧ |q| - (|snapped q| : ℤ) < 1 := by
  have hlt := Int.ceil_lt_add_one (|q| + snapWidth)
  have hle := Int.le_ceil (|q| + snapWidth)
  have hpos := snapWidth_pos
  rw [abs_snapped, snapped_of_nonneg (abs_nonneg q)]
  push_cast
  constructor <;> linarith

end Rule

/-! ## The program -/

section Magnitude

variable {num den : ℕ}

theorem snapsTo_iff (hden : 0 < den) (n : ℕ) :
    snapsTo num den n = true ↔ |(num : ℚ) / den - n| < snapWidth := by
  have hd : (0 : ℚ) < den := by exact_mod_cast hden
  have hs : (0 : ℚ) < (ofFloat degreeSnap).denominator := by
    exact_mod_cast (ofFloat degreeSnap).denominator_pos
  have habs : |(num : ℚ) / den - n| = ((num : ℤ) - n * den).natAbs / den := by
    rw [Nat.cast_natAbs, div_sub' hd.ne', abs_div, abs_of_pos hd]
    push_cast
    rw [mul_comm (den : ℚ)]
  rw [snapsTo, decide_eq_true_iff, habs, snapWidth, value_eq_quotient, div_lt_div_iff₀ hd hs]
  exact_mod_cast Iff.rfl

theorem floor_quotient : ⌊(num : ℚ) / den⌋ = (num / den : ℕ) := by
  rw [Rat.floor_natCast_div_natCast]
  rfl

theorem round_quotient (hden : 0 < den) :
    round ((num : ℚ) / den) =
      ((if den ≤ 2 * (num % den) then num / den + 1 else num / den : ℕ) : ℤ) := by
  have hd : (0 : ℚ) < den := by exact_mod_cast hden
  have hnum : num / den * den + num % den = num := Nat.div_add_mod' num den
  have hmod : num % den < den := Nat.mod_lt _ hden
  have hnum : ((num / den : ℕ) : ℚ) * den + (num % den : ℕ) = num := by exact_mod_cast hnum
  have hmod : ((num % den : ℕ) : ℚ) < den := by exact_mod_cast hmod
  have hquotient : (num : ℚ) / den = (num / den : ℕ) + (num % den : ℕ) / den := by
    rw [← hnum, add_div, mul_div_cancel_right₀ _ hd.ne']
  have hfraction : ((num % den : ℕ) : ℚ) / den < 1 := (div_lt_one hd).mpr hmod
  have hnonneg : 0 ≤ ((num % den : ℕ) : ℚ) / den := by positivity
  rw [round_eq, Int.floor_eq_iff, hquotient]
  split
  · rename_i hhalf
    have hhalf : (den : ℚ) ≤ 2 * (num % den : ℕ) := by exact_mod_cast hhalf
    have hhalf : 1 / 2 ≤ ((num % den : ℕ) : ℚ) / den := by
      rw [div_le_div_iff₀ two_pos hd]
      linarith
    rw [Int.cast_natCast, Nat.cast_add_one]
    constructor <;> linarith
  · rename_i hhalf
    have hhalf : 2 * ((num % den : ℕ) : ℚ) < den := by exact_mod_cast not_le.mp hhalf
    have hhalf : ((num % den : ℕ) : ℚ) / den < 1 / 2 := by
      rw [div_lt_div_iff₀ hd two_pos]
      linarith
    rw [Int.cast_natCast]
    constructor <;> linarith

theorem wholeMagnitude_eq_snapped (hden : 0 < den) :
    (wholeMagnitude num den : ℤ) = snapped (num / den) := by
  have hnonneg : 0 ≤ (num : ℚ) / den := by positivity
  have htruncate : truncate (num / den) = (num / den : ℕ) := by
    rw [truncate, if_pos hnonneg, floor_quotient]
  simp only [wholeMagnitude, snapsTo_iff hden]
  rw [snapped, round_quotient hden, htruncate, Int.cast_natCast, ← apply_ite Nat.cast]

end Magnitude

/-- **A finite value follows the rule** before it is held to 32 bits. -/
theorem wholeDegrees_eq_saturate_snapped {x : Float} (hx : x.isFinite = true) :
    wholeDegrees x = saturate (snapped (number x)) := by
  rw [wholeDegrees, number]
  simp only [isNaN_of_isFinite hx, isInf_of_isFinite hx, Bool.false_eq_true, if_false]
  rw [wholeMagnitude_eq_snapped (ofFloat x).denominator_pos, ← value_eq_quotient]
  cases signBit x with
  | true => rw [if_pos rfl, if_pos rfl, snapped_neg]
  | false => rfl

theorem toInt_wholeDegrees {x : Float} (hx : x.isFinite = true) (hlt : |number x| < 0x7FFFFFFF) :
    (wholeDegrees x).toInt = snapped (number x) := by
  have hle : |snapped (number x)| < (0x80000000 : ℤ) := by
    have hbound := (abs_snapped_bounds (number x)).1
    have hhalf := snapWidth_lt
    have hbound : ((|snapped (number x)| : ℤ) : ℚ) < (0x80000000 : ℤ) := by
      push_cast
      push_cast at hbound
      linarith
    exact_mod_cast hbound
  rw [abs_lt] at hle
  rw [wholeDegrees_eq_saturate_snapped hx, toInt_saturate, min_eq_right (by omega),
    max_eq_right (by omega)]

theorem toInt_saturate_mono {m n : ℤ} (h : m ≤ n) : (saturate m).toInt ≤ (saturate n).toInt := by
  rw [toInt_saturate, toInt_saturate]
  omega

theorem wholeDegrees_of_isInf {x : Float} (hx : x.isInf = true) :
    wholeDegrees x = if signBit x then -0x80000000 else 0x7FFFFFFF := by
  have hfin : ¬ x.isFinite = true := by
    intro h
    rw [isInf_of_isFinite h] at hx
    exact Bool.false_ne_true hx
  have hnan : x.isNaN = false := by
    change x.toModel.unpack.isNaN = false
    rw [unpack_of_isInf hx]
    rfl
  rw [wholeDegrees_of_not_isFinite hfin, hnan]
  rfl

/-- **Whole degrees keep the order**, the ends of the range included. -/
theorem wholeDegrees_mono {x y : Float} (h : x ≤ y) :
    (wholeDegrees x).toInt ≤ (wholeDegrees y).toInt := by
  obtain ⟨hnx, hny⟩ := not_isNaN_of_le h
  by_cases hx : x.isFinite = true
  · by_cases hy : y.isFinite = true
    · rw [wholeDegrees_eq_saturate_snapped hx, wholeDegrees_eq_saturate_snapped hy]
      exact toInt_saturate_mono (snapped_mono ((number_le_iff hx hy).mp h))
    · have hinf := isInf_of_not_isFinite hy hny
      cases hs : signBit y with
      | false =>
        rw [wholeDegrees_of_isInf hinf, hs]
        exact (wholeDegrees x).toInt_le
      | true =>
        have hxinf := (isInf_of_le hinf hs h).1
        rw [isInf_of_isFinite hx] at hxinf
        exact nomatch hxinf
  · have hinf := isInf_of_not_isFinite hx hnx
    cases hs : signBit x with
    | true =>
      rw [wholeDegrees_of_isInf hinf, hs]
      exact (wholeDegrees y).le_toInt
    | false =>
      obtain ⟨hyinf, hys⟩ := isInf_of_ge hinf hs h
      rw [wholeDegrees_of_isInf hinf, wholeDegrees_of_isInf hyinf, hs, hys]

/-! ## The test in doubles -/

/-- **The difference to the nearest integer is not rounded**, so doubles are compared as exact
numbers are. -/
theorem abs_sub_lt_degreeSnap_iff {x n : Float} (hx : x.isFinite = true) (hn : n.isFinite = true)
    (h : number n = round (number x)) :
    (x - n).abs < degreeSnap ↔ |number x - round (number x)| < snapWidth := by
  have hwidth : number degreeSnap = snapWidth := by
    have hsign : signBit degreeSnap = false := by decide +kernel
    rw [number, hsign, if_neg Bool.false_ne_true, snapWidth]
  obtain ⟨hfin, hsub⟩ := number_sub_round hx hn h
  obtain ⟨hfin, habs⟩ := number_abs hfin
  rw [number_lt_iff hfin (by decide +kernel), habs, hsub, h, hwidth]

/-! ## Both directions of a sweep -/

/-- **What is sent for degrees.** Within the range of 32 bits the number follows the rule: it becomes
the integer that it is near, or else loses its fraction, and a difference of doubles tells whether it
is near. Integers stay as they are, and the opposite number gives the opposite integer, as the
opposite sweep does. Beyond the range the order is still kept. -/
theorem wholeDegrees_snaps :
    (∀ x : Float, x.isFinite = true → |number x| < 0x7FFFFFFF →
      (wholeDegrees x).toInt = snapped (number x) ∧
      (∀ n : Float, n.isFinite = true → number n = round (number x) →
        ((x - n).abs < degreeSnap ↔ |number x - round (number x)| < snapWidth)) ∧
      ((|(wholeDegrees x).toInt| : ℤ) : ℚ) ≤ |number x| + snapWidth ∧
      |number x| - (|(wholeDegrees x).toInt| : ℤ) < 1 ∧
      (∀ n : ℤ, number x = n → (wholeDegrees x).toInt = n) ∧
      (wholeDegrees (-x)).toInt = -(wholeDegrees x).toInt) ∧
    (∀ start stop : Float, (degrees stop - degrees start).isFinite = true →
      |number (degrees stop - degrees start)| < 0x7FFFFFFF →
      (Primitive.arcSweep stop start).toInt = -(Primitive.arcSweep start stop).toInt) ∧
    ∀ x y : Float, x ≤ y → (wholeDegrees x).toInt ≤ (wholeDegrees y).toInt := by
  refine ⟨fun x hx hlt => ?_, fun start stop hfin hlt => ?_, fun x y => wholeDegrees_mono⟩
  · have hneg : |number (-x)| < 0x7FFFFFFF := by rwa [number_neg hx, abs_neg]
    rw [toInt_wholeDegrees hx hlt, toInt_wholeDegrees (isFinite_neg hx) hneg, number_neg hx,
      snapped_neg]
    obtain ⟨hle, hgap⟩ := abs_snapped_bounds (number x)
    exact ⟨rfl, fun n => abs_sub_lt_degreeSnap_iff hx, hle, hgap,
      fun n hn => hn ▸ snapped_intCast n, rfl⟩
  · obtain ⟨hfin', hnumber⟩ := number_sub_comm hfin
    have hlt' : |number (degrees start - degrees stop)| < 0x7FFFFFFF := by rwa [hnumber, abs_neg]
    rw [Primitive.arcSweep, Primitive.arcSweep, toInt_wholeDegrees hfin hlt,
      toInt_wholeDegrees hfin' hlt', hnumber, snapped_neg]

/-- Thirty degrees that lack their last place, in both directions. -/
theorem wholeDegrees_snaps_thirty :
    let x : Float := 29.999999999999996
    x.isFinite = true ∧ |number x| < 0x7FFFFFFF ∧ ¬ number x = 30 ∧ (wholeDegrees x).toInt = 30 ∧
      (wholeDegrees (-x)).toInt = -30 := by
  intro x
  have hfin : x.isFinite = true := by decide +kernel
  have hbits : ofFloat x = ⟨false, 8444249301319679, -48⟩ := by decide +kernel
  have hsign : signBit x = false := by decide +kernel
  have hnumber : number x = 8444249301319679 / 2 ^ 48 := by
    rw [number, hsign, if_neg Bool.false_ne_true, hbits, value]
    norm_num
  have hlt : |number x| < 0x7FFFFFFF := by
    rw [hnumber]
    norm_num [abs_of_pos]
  have hwhole : (wholeDegrees x).toInt = 30 := by decide +kernel
  have hneg := (wholeDegrees_snaps.1 x hfin hlt).2.2.2.2.2
  refine ⟨hfin, hlt, ?_, hwhole, by rw [hneg, hwhole]⟩
  rw [hnumber]
  norm_num

end HpGl
