import HpGl.Degrees
import HpGl.Proofs.Rounding

/-!
# Whole degrees as exact numbers

The whole degrees of a value differ from it by less than one, if an integer of 32 bits can do that.
For a value that is out of reach they are the nearest end of the range, and zero for a NaN.

* `Binary.number`: a finite double as an exact number.
* `wholeMagnitude_near`: the integer that is chosen before it is held to 32 bits.
* `Faithful`, `Reachable`: an integer that stands for a value, and the values that have one.
* **`wholeDegrees_faithful_iff`**, **`wholeDegrees_of_not_reachable`**: what is sent for a value.
-/

namespace HpGl

namespace Binary

/-- A finite double as an exact number. -/
def number (x : Float) : ℚ := if signBit x then -(ofFloat x).value else (ofFloat x).value

end Binary

open Binary

/-! ## The integer -/

/-- **The integer that is chosen for a magnitude** is less than one away from it. -/
theorem wholeMagnitude_near (num : ℕ) {den : ℕ} (hden : 0 < den) :
    |(wholeMagnitude num den : ℚ) - num / den| < 1 := by
  have hd : (0 : ℚ) < den := by exact_mod_cast hden
  -- It is the integer part, or one more if there is a fraction.
  have hnear : wholeMagnitude num den * den < num + den ∧
      num < wholeMagnitude num den * den + den := by
    have hnum : num / den * den + num % den = num := Nat.div_add_mod' num den
    have hmod : num % den < den := Nat.mod_lt _ hden
    have hnext : (num / den + 1) * den = num / den * den + den := Nat.succ_mul _ _
    unfold wholeMagnitude
    by_cases hhalf : den ≤ 2 * (num % den)
    · simp only [if_pos hhalf]
      split <;> constructor <;> omega
    · simp only [if_neg hhalf, ite_self]
      constructor <;> omega
  have hlo : (wholeMagnitude num den * den : ℚ) < num + den := by exact_mod_cast hnear.1
  have hhi : (num : ℚ) < wholeMagnitude num den * den + den := by exact_mod_cast hnear.2
  have hquotient : (num : ℚ) / den * den = num := div_mul_cancel₀ _ hd.ne'
  rw [abs_lt]
  constructor
  · by_contra h
    nlinarith
  · by_contra h
    nlinarith

theorem toInt_saturate (n : ℤ) :
    (saturate n).toInt = max (-0x80000000) (min 0x7FFFFFFF n) :=
  Int32.toInt_ofInt_of_le (by omega) (by omega)

theorem saturate_of_le {n : ℤ} (h : n ≤ -0x80000000) : saturate n = -0x80000000 := by
  rw [saturate, min_eq_right (h.trans (by decide)), max_eq_left h]
  rfl

theorem saturate_of_ge {n : ℤ} (h : 0x7FFFFFFF ≤ n) : saturate n = 0x7FFFFFFF := by
  rw [saturate, min_eq_left h, max_eq_right (by decide)]
  rfl

theorem wholeDegrees_eq_saturate {x : Float} (hx : x.isFinite = true) :
    ∃ n : ℤ, |(n : ℚ) - number x| < 1 ∧ wholeDegrees x = saturate n := by
  have hnear := wholeMagnitude_near (ofFloat x).numerator (ofFloat x).denominator_pos
  rw [← value_eq_quotient] at hnear
  unfold wholeDegrees number
  simp only [isNaN_of_isFinite hx, isInf_of_isFinite hx, Bool.false_eq_true, if_false]
  refine ⟨_, ?_, rfl⟩
  cases signBit x with
  | false => simpa using hnear
  | true =>
    rw [abs_sub_comm] at hnear
    simpa [sub_eq_add_neg, add_comm] using hnear

/-! ## What is sent -/

/-- **An integer stands for a value**: it is less than one away. -/
def Faithful (n : Int32) (x : Float) : Prop := x.isFinite = true ∧ |(n.toInt : ℚ) - number x| < 1

/-- Integers of 32 bits come closer than one to the value. -/
def Reachable (x : Float) : Prop :=
  x.isFinite = true ∧ -0x80000001 < number x ∧ number x < 0x80000000

theorem Faithful.reachable {n : Int32} {x : Float} (h : Faithful n x) : Reachable x := by
  obtain ⟨hx, hnear⟩ := h
  have hlo : (-0x80000000 : ℚ) ≤ n.toInt := by exact_mod_cast n.le_toInt
  have hhi : (n.toInt : ℚ) ≤ 0x7FFFFFFF := by exact_mod_cast n.toInt_le
  rw [abs_lt] at hnear
  exact ⟨hx, by linarith, by linarith⟩

/-- **Whole degrees stand for the value** if any integer of 32 bits does. -/
theorem wholeDegrees_faithful_iff (x : Float) : Faithful (wholeDegrees x) x ↔ Reachable x := by
  refine ⟨Faithful.reachable, fun h => ?_⟩
  obtain ⟨hx, hlo, hhi⟩ := h
  obtain ⟨n, hnear, hn⟩ := wholeDegrees_eq_saturate hx
  rw [abs_lt] at hnear
  -- The integer is out of range by one at most, and then the end of the range is as near.
  have hn₁ : -0x80000002 < n := by
    have : (-0x80000002 : ℚ) < n := by linarith
    exact_mod_cast this
  have hn₂ : n < 0x80000001 := by
    have : (n : ℚ) < 0x80000001 := by linarith
    exact_mod_cast this
  refine ⟨hx, ?_⟩
  rw [hn, toInt_saturate, abs_lt]
  rcases (by omega : n = -0x80000001 ∨ n = 0x80000000 ∨ -0x80000000 ≤ n ∧ n ≤ 0x7FFFFFFF) with
    rfl | rfl | ⟨hlo', hhi'⟩
  · norm_num at hnear ⊢
    constructor <;> linarith
  · norm_num at hnear ⊢
    constructor <;> linarith
  · rw [min_eq_right hhi', max_eq_right hlo']
    exact hnear

theorem isInf_of_not_isFinite {x : Float} (h : ¬ x.isFinite = true) (hnan : x.isNaN = false) :
    x.isInf = true := by
  change ¬ x.toModel.unpack.isFinite = true at h
  change x.toModel.unpack.isNaN = false at hnan
  change x.toModel.unpack.isInf = true
  generalize x.toModel.unpack = u at h hnan
  cases u <;> simp_all [Float.Model.UnpackedFloat.isFinite, Float.Model.UnpackedFloat.isNaN,
    Float.Model.UnpackedFloat.isInf]

theorem wholeDegrees_of_not_isFinite {x : Float} (h : ¬ x.isFinite = true) :
    wholeDegrees x =
      if x.isNaN then 0 else if signBit x then -0x80000000 else 0x7FFFFFFF := by
  rw [wholeDegrees]
  cases hnan : x.isNaN with
  | true => rfl
  | false =>
    rw [if_neg Bool.false_ne_true, if_neg Bool.false_ne_true]
    simp only [isInf_of_not_isFinite h hnan, if_true]
    cases signBit x <;> rfl

/-- **A value that is out of reach** becomes an end of the range, and a NaN zero. -/
theorem wholeDegrees_of_not_reachable {x : Float} (h : ¬ Reachable x) :
    wholeDegrees x =
      if x.isNaN then 0 else if signBit x then -0x80000000 else 0x7FFFFFFF := by
  by_cases hx : x.isFinite = true
  · obtain ⟨n, hnear, hn⟩ := wholeDegrees_eq_saturate hx
    have hvalue := (ofFloat x).value_nonneg
    rw [isNaN_of_isFinite hx, if_neg Bool.false_ne_true, hn]
    rw [abs_lt, number] at hnear
    rw [Reachable, number] at h
    cases hs : signBit x with
    | true =>
      simp only [hs, if_true] at h hnear
      have hfar : (ofFloat x).value ≥ 0x80000001 := by
        by_contra hlt
        exact h ⟨hx, by linarith, by linarith⟩
      have hlow : (n : ℚ) < -0x80000000 := by linarith
      rw [if_pos rfl]
      exact saturate_of_le (by exact_mod_cast hlow.le)
    | false =>
      simp only [hs, Bool.false_eq_true, if_false] at h hnear
      have hfar : (ofFloat x).value ≥ 0x80000000 := by
        by_contra hlt
        exact h ⟨hx, by linarith, by linarith⟩
      have hhigh : (0x7FFFFFFF : ℚ) < n := by linarith
      rw [if_neg Bool.false_ne_true]
      exact saturate_of_ge (by exact_mod_cast hhigh.le)
  · exact wholeDegrees_of_not_isFinite hx

end HpGl
