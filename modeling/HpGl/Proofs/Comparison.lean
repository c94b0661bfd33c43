import HpGl.Proofs.Arithmetic
import HpGl.Proofs.Degrees

/-!
# Comparing and subtracting doubles

Finite doubles compare as the numbers that they are. A minus in front of a double changes the sign
of its number, and so does taking a difference the other way round.

* `unpack_of_isFinite`: what is behind a finite double, by its mantissa and its exponent.
* `Canonical.compare_value`, **`compare_unpack`**: the order of doubles; `number_le_iff`,
  `number_lt_iff`.
* `eq_infiniteFloat`, `eq_nanFloat`: the doubles that are not finite.
* `isInf_of_ge`, `isInf_of_le`: nothing lies beyond the infinities.
* `number_neg`, `number_abs`: a double with the other sign and without its sign; `neg_pack`.
* **`number_sub_comm`**: the two differences of two doubles.
* **`number_sub_exact`**, `number_sub_round`: differences that are not rounded.
-/

namespace HpGl

open Float.Model (Format UnpackedFloat)
open Float.Model.UnpackedFloat

namespace Binary

/-! ## Order -/

section Order

variable {a b : Binary}

theorem Canonical.value_lt (ha : a.Canonical) (hb : b.Canonical) (h : a.exponent < b.exponent) :
    a.value < b.value := by
  have hp := two_zpow_pos a.exponent
  have hlead : leadingBit ≤ b.mantissa := hb.leading (ha.le_exponent.trans_lt h)
  have hlt : (a.mantissa : ℚ) < 2 * leadingBit := by exact_mod_cast ha.mantissa_lt
  have hle : (leadingBit : ℚ) ≤ b.mantissa := by exact_mod_cast hlead
  have hpow : 2 * (2 : ℚ) ^ a.exponent ≤ 2 ^ b.exponent := by
    rw [mul_comm, ← zpow_add_one₀ (by norm_num)]
    exact zpow_le_zpow_right₀ (by norm_num) h
  calc a.value < 2 * leadingBit * 2 ^ a.exponent := mul_lt_mul_of_pos_right hlt hp
    _ = leadingBit * (2 * 2 ^ a.exponent) := by ring
    _ ≤ b.mantissa * 2 ^ b.exponent := mul_le_mul hle hpow (by positivity) (by positivity)

/-- **The order of values** is that of exponents and then of mantissas. -/
theorem Canonical.compare_value (ha : a.Canonical) (hb : b.Canonical) :
    (compare a.exponent b.exponent).then (compare a.mantissa b.mantissa) =
      compare a.value b.value := by
  rcases lt_trichotomy a.exponent b.exponent with hlt | heq | hgt
  · rw [Int.compare_eq_lt.mpr hlt, compare_lt_iff_lt.mpr (ha.value_lt hb hlt)]
    rfl
  · have hp := two_zpow_pos b.exponent
    rw [heq, Std.compare_self, Ordering.eq_then, value, value, heq]
    rcases lt_trichotomy a.mantissa b.mantissa with hlt | heq | hgt
    · have h := mul_lt_mul_of_pos_right (Nat.cast_lt (α := ℚ).mpr hlt) hp
      rw [Nat.compare_eq_lt.mpr hlt, compare_lt_iff_lt.mpr h]
    · rw [heq, Std.compare_self, compare_eq_iff_eq.mpr rfl]
    · have h := mul_lt_mul_of_pos_right (Nat.cast_lt (α := ℚ).mpr hgt) hp
      rw [Nat.compare_eq_gt.mpr hgt, compare_gt_iff_gt.mpr h]
  · rw [Int.compare_eq_gt.mpr hgt, compare_gt_iff_gt.mpr (hb.value_lt ha hgt)]
    rfl

end Order

/-! ## Finite doubles -/

section Finite

variable {x y : Float}

/-- **What is behind a finite double**: nothing but a sign if it is a zero. -/
theorem unpack_of_isFinite (hx : x.isFinite = true) :
    ((ofFloat x).mantissa = 0 ∧
        x.toModel.unpack = .zero (if signBit x then .negative else .positive)) ∨
      ∃ h, x.toModel.unpack = .finite (if signBit x then .negative else .positive)
        (ofFloat x).mantissa (ofFloat x).exponent h := by
  have hfield := isFinite_iff.mp hx
  have hreads := reads x
  have hbits : magnitudeBits x / leadingBit = exponentField x := rfl
  have hrest : magnitudeBits x % leadingBit = fractionField x := rfl
  have hsplit := Nat.div_add_mod (magnitudeBits x) leadingBit
  rw [hbits, hrest] at hsplit
  rw [ofFloat, ofMagnitudeBits, hbits, hrest]
  generalize x.toModel.unpack = u at hreads ⊢
  cases hreads with
  | infinity he | notANumber he => omega
  | zero he hf =>
    left
    rw [if_pos he]
    rw [he, hf] at hsplit
    exact ⟨hsplit.symm, rfl⟩
  | subnormal h he hq =>
    right
    rw [if_pos he]
    rw [he, Nat.mul_zero, Nat.zero_add] at hsplit
    subst hq
    rw [← hsplit]
    exact ⟨h, rfl⟩
  | normal h h₀ hlt hm hq =>
    right
    rw [if_neg h₀.ne']
    subst hm hq
    exact ⟨h, rfl⟩

theorem number_of_mantissa_eq_zero (h : (ofFloat x).mantissa = 0) : number x = 0 := by
  simp [number, value, h]

theorem mantissa_eq_zero (hx : (x == 0) = true) : (ofFloat x).mantissa = 0 := by
  have h := reads x
  have hsplit := Nat.div_add_mod (magnitudeBits x) leadingBit
  change leadingBit * exponentField x + fractionField x = magnitudeBits x at hsplit
  change x.toModel.unpack.beq (.zero .positive) = true at hx
  generalize x.toModel.unpack = u at h hx
  generalize (if signBit x then Sign.negative else Sign.positive) = s at h
  cases h with
  | zero he hf =>
    rw [he, hf] at hsplit
    rw [ofFloat, ← hsplit]
    rfl
  | infinity | notANumber | subnormal | normal =>
    cases s <;> exact absurd hx Bool.false_ne_true

theorem compare_neg (p q : ℚ) : compare (-p) (-q) = compare q p := by
  rcases lt_trichotomy p q with h | h | h
  · rw [compare_gt_iff_gt.mpr h, compare_gt_iff_gt.mpr (neg_lt_neg h)]
  · rw [h, compare_eq_iff_eq.mpr rfl, compare_eq_iff_eq.mpr rfl]
  · rw [compare_lt_iff_lt.mpr h, compare_lt_iff_lt.mpr (neg_lt_neg h)]

theorem value_pos (h : 0 < (ofFloat x).mantissa) : 0 < (ofFloat x).value :=
  mul_pos (Nat.cast_pos.mpr h) (two_zpow_pos _)

/-- **Finite doubles compare as numbers.** -/
theorem compare_unpack (hx : x.isFinite = true) (hy : y.isFinite = true) :
    UnpackedFloat.compare x.toModel.unpack y.toModel.unpack =
      some (compare (number x) (number y)) := by
  rcases unpack_of_isFinite hx with ⟨hmx, hux⟩ | ⟨hpx, hux⟩ <;>
    rcases unpack_of_isFinite hy with ⟨hmy, huy⟩ | ⟨hpy, huy⟩ <;> rw [hux, huy]
  · rw [number_of_mantissa_eq_zero hmx, number_of_mantissa_eq_zero hmy,
      compare_eq_iff_eq.mpr rfl]
    rfl
  · have hpos := value_pos hpy
    rw [number_of_mantissa_eq_zero hmx, number]
    cases signBit y with
    | true => rw [if_pos rfl, if_pos rfl, compare_gt_iff_gt.mpr (neg_lt_zero.mpr hpos)]; rfl
    | false => rw [compare_lt_iff_lt.mpr (by simpa using hpos)]; rfl
  · have hpos := value_pos hpx
    rw [number_of_mantissa_eq_zero hmy, number]
    cases signBit x with
    | true => rw [if_pos rfl, if_pos rfl, compare_lt_iff_lt.mpr (neg_lt_zero.mpr hpos)]; rfl
    | false => rw [compare_gt_iff_gt.mpr (by simpa using hpos)]; rfl
  · have hposx := value_pos hpx
    have hposy := value_pos hpy
    have hcompare := (ofFloat_canonical hx).compare_value (ofFloat_canonical hy)
    rw [number, number]
    cases signBit x <;> cases signBit y <;>
      simp only [Bool.false_eq_true, if_true, if_false, UnpackedFloat.compare, hcompare]
    · rw [compare_gt_iff_gt.mpr (by linarith)]
    · rw [compare_lt_iff_lt.mpr (by linarith)]
    · rw [compare_neg, ← Std.OrientedCmp.eq_swap]

theorem number_le_iff (hx : x.isFinite = true) (hy : y.isFinite = true) :
    x ≤ y ↔ number x ≤ number y := by
  have hle : x ≤ y ↔ UnpackedFloat.le x.toModel.unpack y.toModel.unpack = true :=
    decide_eq_true_iff
  rw [hle, UnpackedFloat.le, compare_unpack hx hy, Option.any_some, Ordering.isLE_iff_ne_gt]
  exact compare_le_iff_le

theorem number_lt_iff (hx : x.isFinite = true) (hy : y.isFinite = true) :
    x < y ↔ number x < number y := by
  have hlt : x < y ↔ UnpackedFloat.lt x.toModel.unpack y.toModel.unpack = true :=
    decide_eq_true_iff
  rw [hlt, UnpackedFloat.lt, compare_unpack hx hy, beq_iff_eq, Option.some_inj, compare_lt_iff_lt]

/-! ## Infinite doubles -/

theorem unpack_of_isInf (hx : x.isInf = true) :
    x.toModel.unpack = .infinity (if signBit x then .negative else .positive) := by
  change x.toModel.unpack.isInf = true at hx
  have hreads := reads x
  generalize x.toModel.unpack = u at hreads hx ⊢
  cases hreads with
  | infinity => rfl
  | notANumber | zero | subnormal | normal => exact nomatch hx

theorem eq_infiniteFloat (hx : x.isInf = true) : x = infiniteFloat (signBit x) := by
  have hpack : (⟨.pack x.toModel.unpack⟩ : Float) = x := pack_word x
  rw [unpack_of_isInf hx] at hpack
  generalize signBit x = s at hpack ⊢
  rw [← hpack]
  cases s <;> decide +kernel

theorem eq_nanFloat (hx : x.isNaN = true) : x = nanFloat := by
  have hpack : (⟨.pack x.toModel.unpack⟩ : Float) = x := pack_word x
  change x.toModel.unpack.isNaN = true at hx
  cases hu : x.toModel.unpack with
  | notANumber =>
    rw [← hpack, hu]
    decide +kernel
  | infinity | zero | finite =>
    rw [hu] at hx
    exact nomatch hx

theorem not_isNaN_of_le (h : x ≤ y) : x.isNaN = false ∧ y.isNaN = false := by
  have hle : UnpackedFloat.le x.toModel.unpack y.toModel.unpack = true := of_decide_eq_true h
  change x.toModel.unpack.isNaN = false ∧ y.toModel.unpack.isNaN = false
  cases hx : x.toModel.unpack <;> cases hy : y.toModel.unpack <;>
    first | exact ⟨rfl, rfl⟩ | (rw [hx, hy] at hle; exact nomatch hle)

theorem isInf_of_ge (hx : x.isInf = true) (hs : signBit x = false) (h : x ≤ y) :
    y.isInf = true ∧ signBit y = false := by
  have hle : UnpackedFloat.le x.toModel.unpack y.toModel.unpack = true := of_decide_eq_true h
  rw [unpack_of_isInf hx, hs] at hle
  cases hfin : y.isFinite with
  | true =>
    rcases unpack_of_isFinite hfin with ⟨-, hu⟩ | ⟨hp, hu⟩ <;> rw [hu] at hle <;> exact nomatch hle
  | false =>
    have hinf := isInf_of_not_isFinite (by simp [hfin]) (not_isNaN_of_le h).2
    refine ⟨hinf, Bool.eq_false_iff.mpr fun hsy => ?_⟩
    rw [unpack_of_isInf hinf, hsy] at hle
    exact nomatch hle

theorem isInf_of_le (hy : y.isInf = true) (hs : signBit y = true) (h : x ≤ y) :
    x.isInf = true ∧ signBit x = true := by
  have hle : UnpackedFloat.le x.toModel.unpack y.toModel.unpack = true := of_decide_eq_true h
  rw [unpack_of_isInf hy, hs] at hle
  cases hfin : x.isFinite with
  | true =>
    rcases unpack_of_isFinite hfin with ⟨-, hu⟩ | ⟨hp, hu⟩ <;> rw [hu] at hle <;> exact nomatch hle
  | false =>
    have hinf := isInf_of_not_isFinite (by simp [hfin]) (not_isNaN_of_le h).1
    refine ⟨hinf, Bool.of_not_eq_false fun hsx => ?_⟩
    rw [unpack_of_isInf hinf, hsx] at hle
    exact nomatch hle

/-! ## Opposites -/

theorem number_neg (hx : x.isFinite = true) : number (-x) = -number x := by
  have hlt := magnitudeBits_lt hx
  have hneg : -x = signedFloat (!signBit x) (magnitudeBits x) := by
    rw [← neg_signedFloat _ hlt, signedFloat_magnitudeBits]
  have hvalue : (ofFloat (-x)).value = (ofFloat x).value := by
    have hbits : magnitudeBits (-x) = magnitudeBits x := by
      rw [hneg, magnitudeBits_signedFloat _ hlt]
    simp only [ofFloat, ofMagnitudeBits, hbits, value]
    split <;> rfl
  have hsign : signBit (-x) = !signBit x := by
    rw [hneg, signBit_signedFloat _ hlt]
  rw [number, number, hvalue, hsign]
  cases signBit x <;> simp

theorem number_abs (hx : x.isFinite = true) :
    x.abs.isFinite = true ∧ number x.abs = |number x| := by
  have hnonneg := (ofFloat x).value_nonneg
  have hpack : (⟨.pack x.toModel.unpack⟩ : Float) = x := pack_word x
  have habs : x.abs = ⟨.pack x.toModel.unpack.abs⟩ := rfl
  cases hs : signBit x with
  | false =>
    have hsame : x.abs = x := by
      conv_rhs => rw [← hpack]
      rcases unpack_of_isFinite hx with ⟨-, hu⟩ | ⟨_, hu⟩ <;> rw [habs, hu, hs] <;> rfl
    rw [hsame, number, hs, if_neg Bool.false_ne_true, abs_of_nonneg hnonneg]
    exact ⟨hx, rfl⟩
  | true =>
    have hflip : x.abs = -x := by
      have hneg : -x = ⟨.pack x.toModel.unpack.neg⟩ := rfl
      rcases unpack_of_isFinite hx with ⟨-, hu⟩ | ⟨_, hu⟩ <;> rw [habs, hneg, hu, hs] <;> rfl
    rw [hflip, number_neg hx, number, hs, if_pos rfl, abs_neg, neg_neg, abs_of_nonneg hnonneg]
    exact ⟨isFinite_neg hx, rfl⟩

end Finite

theorem pack_neg_fields {u : UnpackedFloat} (hu : u ≠ .notANumber) :
    ∃ s e m, UnpackedFloat.pack .binary64 u = packComponents .binary64 s e m ∧
      UnpackedFloat.pack .binary64 u.neg = packComponents .binary64 (-s) e m := by
  cases u with
  | notANumber => exact absurd rfl hu
  | infinity s | zero s => exact ⟨s, _, _, rfl, rfl⟩
  | finite s m e h =>
    simp only [UnpackedFloat.neg, UnpackedFloat.pack]
    split
    · exact ⟨s, _, _, rfl, rfl⟩
    · split <;> exact ⟨s, _, _, rfl, rfl⟩

theorem neg_pack (u : UnpackedFloat) : -(⟨.pack u⟩ : Float) = ⟨.pack u.neg⟩ := by
  by_cases hu : u = .notANumber
  · subst hu
    decide +kernel
  · obtain ⟨s, e, m, h, h'⟩ := pack_neg_fields hu
    have hunpack : unpack .binary64 (UnpackedFloat.pack .binary64 u.neg) =
        (unpack .binary64 (UnpackedFloat.pack .binary64 u)).neg := by
      rw [h, h']
      refine unpack_neg ?_ ?_ ?_
      · rw [unpackExponent_packComponents, unpackExponent_packComponents]
      · rw [unpackMantissa_packComponents, unpackMantissa_packComponents]
      · rw [unpackSign_packComponents, unpackSign_packComponents, Sign.ofBitVec_toBitVec,
          Sign.ofBitVec_toBitVec]
    calc -(⟨.pack u⟩ : Float)
        = ⟨.pack (unpack .binary64 (UnpackedFloat.pack .binary64 u)).neg⟩ := rfl
      _ = ⟨.pack (unpack .binary64 (UnpackedFloat.pack .binary64 u.neg))⟩ := by rw [hunpack]
      _ = ⟨.pack u.neg⟩ := pack_word ⟨.pack u.neg⟩

/-! ## Differences -/

theorem neg_roundWithAccuracy (f : Format) (s : Sign) (m : ℕ) (e : ℤ) (acc : Accuracy) :
    (roundWithAccuracy f s m e acc).neg = roundWithAccuracy f (-s) m e acc := by
  simp only [roundWithAccuracy]
  split <;> rfl

theorem neg_normalize (f : Format) {m : ℤ} (hm : m ≠ 0) (e : ℤ) (s : Sign) :
    (UnpackedFloat.normalize f m e s).neg = UnpackedFloat.normalize f (-m) e s := by
  have hround (t : Sign) (k : ℕ) : (UnpackedFloat.round f t k e).neg =
      UnpackedFloat.round f (-t) k e := neg_roundWithAccuracy f t _ _ _
  rcases lt_or_gt_of_ne hm with h | h
  · have h' : compare (-m) 0 = .gt := Int.compare_eq_gt.mpr (by omega)
    simp only [UnpackedFloat.normalize, Int.compare_eq_lt.mpr h, h', hround]
    rfl
  · have h' : compare (-m) 0 = .lt := Int.compare_eq_lt.mpr (by omega)
    simp only [UnpackedFloat.normalize, Int.compare_eq_gt.mpr h, h', hround, neg_neg]
    rfl

theorem sub_comm_cases (f : Format) (u v : UnpackedFloat) :
    UnpackedFloat.sub f u v = (UnpackedFloat.sub f v u).neg ∨
      UnpackedFloat.sub f u v = .zero .positive ∧ UnpackedFloat.sub f v u = .zero .positive := by
  cases u with
  | notANumber => cases v <;> exact .inl rfl
  | infinity s =>
    cases v with
    | infinity t => cases s <;> cases t <;> exact .inl rfl
    | notANumber => exact .inl rfl
    | zero | finite => exact .inl (by cases s <;> rfl)
  | zero s =>
    cases v with
    | zero t => cases s <;> cases t <;> first | exact .inl rfl | exact .inr ⟨rfl, rfl⟩
    | notANumber => exact .inl rfl
    | infinity t => exact .inl rfl
    | finite t m e h => exact .inl rfl
  | finite s m e h =>
    cases v with
    | notANumber => exact .inl rfl
    | infinity t => exact .inl rfl
    | zero t => exact .inl (by cases s <;> rfl)
    | finite t m' e' h' =>
      -- both are made from one difference of mantissas, with one sign or the other
      obtain ⟨d, hd⟩ : ∃ d, d = t.apply (decreaseExponent m' e' (min e' e)).1 -
          s.apply (decreaseExponent m e (min e' e)).1 := ⟨_, rfl⟩
      have hback : UnpackedFloat.sub f (.finite t m' e' h') (.finite s m e h) =
          UnpackedFloat.normalize f d (min e' e) .positive := by
        rw [hd]
        rfl
      have hforth : UnpackedFloat.sub f (.finite s m e h) (.finite t m' e' h') =
          UnpackedFloat.normalize f (-d) (min e' e) .positive := by
        rw [hd, neg_sub, min_comm]
        rfl
      rw [hback, hforth]
      by_cases h0 : d = 0
      · rw [h0]
        exact .inr ⟨rfl, rfl⟩
      · exact .inl (neg_normalize f h0 _ _).symm

theorem number_sub_comm {x y : Float} (h : (x - y).isFinite = true) :
    (y - x).isFinite = true ∧ number (y - x) = -number (x - y) := by
  have hsub (x y : Float) : x - y =
      ⟨.pack (UnpackedFloat.sub .binary64 x.toModel.unpack y.toModel.unpack)⟩ := rfl
  rcases sub_comm_cases .binary64 y.toModel.unpack x.toModel.unpack with hneg | ⟨hyx, hxy⟩
  · have hflip : y - x = -(x - y) := by rw [hsub y x, hneg, ← neg_pack, ← hsub x y]
    rw [hflip]
    exact ⟨isFinite_neg h, number_neg h⟩
  · have hzero : y - x = x - y := by rw [hsub y x, hsub x y, hyx, hxy]
    have hnumber : number (x - y) = 0 := by
      rw [hsub x y, hxy]
      exact number_of_mantissa_eq_zero (by decide +kernel)
    rw [hzero, hnumber, neg_zero]
    exact ⟨h, rfl⟩

/-! ## Exact differences -/

section Exact

variable {x y n : Float} {b : Binary}

theorem number_round (negative : Bool) {m : ℕ} {e : ℤ} (h0 : m ≠ 0) (hm : m < 2 * leadingBit)
    (hlo : -1022 ≤ e) (hhi : e ≤ 971) {z : Float} (hz : z = ⟨.pack (UnpackedFloat.round .binary64
      (if negative then .negative else .positive) m e)⟩) :
    z.isFinite = true ∧ number z = if negative then -((m : ℚ) * 2 ^ e) else (m : ℚ) * 2 ^ e := by
  obtain ⟨b, rfl, hb, hvalue, hpos, hround⟩ :=
    round_exact negative (if negative then .negative else .positive) h0 hm hlo hhi
  rw [hz, hround, hb.pack hpos, number, hb.ofFloat_signedFloat, signBit_signedFloat _ hb.bits_lt,
    hvalue]
  exact ⟨isFinite_signedFloat _ hb.bits_lt, rfl⟩

theorem number_normalize {d e : ℤ} (hd : d.natAbs < 2 * leadingBit) (hlo : -1022 ≤ e)
    (hhi : e ≤ 971) {z : Float}
    (hz : z = ⟨.pack (UnpackedFloat.normalize .binary64 d e .positive)⟩) :
    z.isFinite = true ∧ number z = d * 2 ^ e := by
  rw [UnpackedFloat.normalize] at hz
  rcases lt_trichotomy d 0 with h | h | h
  · have hcast : (((-d).toNat : ℕ) : ℚ) = -(d : ℚ) := by
      rw [← Int.cast_natCast, Int.toNat_of_nonneg (by omega), Int.cast_neg]
    rw [Int.compare_eq_lt.mpr h] at hz
    obtain ⟨hfin, hnumber⟩ := number_round true (by omega) (by omega) hlo hhi hz
    rw [if_pos rfl, hcast, neg_mul, neg_neg] at hnumber
    exact ⟨hfin, hnumber⟩
  · rw [h] at hz ⊢
    have hz : z = ⟨.pack (.zero .positive)⟩ := hz
    rw [hz, number_of_mantissa_eq_zero (by decide +kernel), Int.cast_zero, zero_mul]
    exact ⟨by decide +kernel, rfl⟩
  · have hcast : ((d.toNat : ℕ) : ℚ) = (d : ℚ) := by
      rw [← Int.cast_natCast, Int.toNat_of_nonneg h.le]
    rw [Int.compare_eq_gt.mpr h] at hz
    obtain ⟨hfin, hnumber⟩ := number_round false (by omega) (by omega) hlo hhi hz
    rw [if_neg Bool.false_ne_true, hcast] at hnumber
    exact ⟨hfin, hnumber⟩

theorem number_eq_apply {e : ℤ} (he : e ≤ (ofFloat x).exponent) :
    number x = (((if signBit x then .negative else .positive : Sign).apply
      (decreaseExponent (ofFloat x).mantissa (ofFloat x).exponent e).1 : ℤ) : ℚ) * 2 ^ e := by
  have hpow : (2 : ℚ) ^ (ofFloat x).exponent = 2 ^ ((ofFloat x).exponent - e).toNat * 2 ^ e := by
    rw [mul_comm, ← two_zpow_add]
    congr 1
    omega
  rw [number, value, hpow, decreaseExponent]
  simp only [Nat.shiftLeft_eq]
  cases signBit x <;> simp [Sign.apply] <;> ring

/-- **A difference of fifty-three bits** is not rounded. -/
theorem number_sub_exact (hx : x.isFinite = true) (hy : y.isFinite = true)
    (hmx : (ofFloat x).mantissa ≠ 0) (hmy : (ofFloat y).mantissa ≠ 0) {e : ℤ}
    (he : e = min (ofFloat x).exponent (ofFloat y).exponent) (hlo : -1022 ≤ e)
    (hsmall : |number x - number y| < 2 * leadingBit * 2 ^ e) :
    (x - y).isFinite = true ∧ number (x - y) = number x - number y := by
  rcases unpack_of_isFinite hx with ⟨hzero, -⟩ | ⟨hpx, hux⟩
  · exact absurd hzero hmx
  rcases unpack_of_isFinite hy with ⟨hzero, -⟩ | ⟨hpy, huy⟩
  · exact absurd hzero hmy
  have hex := number_eq_apply (x := x) (e := e) (by omega)
  have hey := number_eq_apply (x := y) (e := e) (by omega)
  have hhi := (ofFloat_canonical hx).exponent_le
  have hsub : x - y = ⟨.pack (UnpackedFloat.sub .binary64 x.toModel.unpack y.toModel.unpack)⟩ := rfl
  rw [hux, huy] at hsub
  simp only [UnpackedFloat.sub, ← he] at hsub
  generalize (if signBit x then Sign.negative else Sign.positive).apply _ = p at hsub hex
  generalize (if signBit y then Sign.negative else Sign.positive).apply _ = q at hsub hey
  have hdifference : number x - number y = ((p - q : ℤ) : ℚ) * 2 ^ e := by
    rw [hex, hey, Int.cast_sub, sub_mul]
  rw [hdifference, abs_mul, abs_of_pos (two_zpow_pos e), mul_lt_mul_iff_left₀ (two_zpow_pos e),
    ← Int.cast_abs, ← Nat.cast_natAbs] at hsmall
  rw [hdifference]
  exact number_normalize (by exact_mod_cast hsmall) hlo (by omega) hsub

theorem Canonical.lt_exponent (hb : b.Canonical) {j : ℤ} (h : 2 ^ j ≤ b.value) :
    j < b.exponent + 53 := by
  have hlt : (b.mantissa : ℚ) < 2 ^ (53 : ℤ) := by
    have := hb.mantissa_lt
    unfold leadingBit at this
    exact_mod_cast this
  have hvalue : b.value < 2 ^ (b.exponent + 53) := by
    calc b.value < 2 ^ (53 : ℤ) * 2 ^ b.exponent := mul_lt_mul_of_pos_right hlt (two_zpow_pos _)
      _ = 2 ^ (b.exponent + 53) := by rw [← zpow_add₀ (by norm_num), add_comm]
  exact (zpow_lt_zpow_iff_right₀ (by norm_num)).mp (h.trans_lt hvalue)

theorem abs_number (x : Float) : |number x| = (ofFloat x).value := by
  have h := (ofFloat x).value_nonneg
  rw [number]
  split
  · rw [abs_neg, abs_of_nonneg h]
  · rw [abs_of_nonneg h]

theorem number_sub_zero (hx : x.isFinite = true) (hn : n.isFinite = true)
    (hm : (ofFloat n).mantissa = 0) : (x - n).isFinite = true ∧ number (x - n) = number x := by
  have hsub : x - n = ⟨.pack (UnpackedFloat.sub .binary64 x.toModel.unpack n.toModel.unpack)⟩ := rfl
  rcases unpack_of_isFinite hn with ⟨-, hun⟩ | ⟨hpos, -⟩
  · rcases unpack_of_isFinite hx with ⟨hmx, hux⟩ | ⟨hpx, hux⟩
    · -- one zero or the other is left
      have hzero : ∃ s, x - n = ⟨.pack (.zero s)⟩ := by
        rw [hsub, hux, hun]
        cases signBit x <;> cases signBit n <;> exact ⟨_, rfl⟩
      obtain ⟨s, hzero⟩ := hzero
      have hpack : (⟨.pack (.zero s)⟩ : Float).isFinite = true ∧
          (ofFloat ⟨.pack (.zero s)⟩).mantissa = 0 := by
        cases s <;> decide +kernel
      rw [hzero, number_of_mantissa_eq_zero hpack.2, number_of_mantissa_eq_zero hmx]
      exact ⟨hpack.1, rfl⟩
    · have hsame : x - n = x := by
        conv_rhs => rw [← show (⟨.pack x.toModel.unpack⟩ : Float) = x from pack_word x]
        rw [hsub, hux, hun]
        rfl
      rw [hsame]
      exact ⟨hx, rfl⟩
  · exact absurd hm hpos.ne'

/-- **The difference to the nearest integer** is exact. -/
theorem number_sub_round (hx : x.isFinite = true) (hn : n.isFinite = true)
    (h : number n = round (number x)) :
    (x - n).isFinite = true ∧ number (x - n) = number x - number n := by
  by_cases hm : (ofFloat n).mantissa = 0
  · rw [number_of_mantissa_eq_zero hm, sub_zero]
    exact number_sub_zero hx hn hm
  -- an integer other than zero is not small, and neither is what is rounded to it
  have hhalf : |number x - number n| ≤ 1 / 2 := h ▸ abs_sub_round (number x)
  have hone : 1 ≤ |number n| := by
    have hpos : 0 < |number n| := abs_number n ▸ value_pos (Nat.pos_of_ne_zero hm)
    rw [h] at hpos ⊢
    exact_mod_cast hpos
  have hlarge : 1 / 2 ≤ |number x| := by
    have htriangle := abs_sub_abs_le_abs_sub (number n) (number x)
    rw [abs_sub_comm] at htriangle
    linarith
  have hen := (ofFloat_canonical hn).lt_exponent (j := 0) (by rwa [← abs_number, zpow_zero])
  have hex := (ofFloat_canonical hx).lt_exponent (j := -1)
    (by rwa [← abs_number, zpow_neg_one, ← one_div])
  have hmx : (ofFloat x).mantissa ≠ 0 := by
    intro hzero
    rw [number_of_mantissa_eq_zero hzero, abs_zero] at hlarge
    norm_num at hlarge
  refine number_sub_exact hx hn hmx hm rfl (by omega) (hhalf.trans_lt ?_)
  calc (1 : ℚ) / 2 < 2 * leadingBit * 2 ^ (-53 : ℤ) := by norm_num [leadingBit]
    _ ≤ 2 * leadingBit * 2 ^ min (ofFloat x).exponent (ofFloat n).exponent := by
      refine mul_le_mul_of_nonneg_left (zpow_le_zpow_right₀ (by norm_num) ?_) (by positivity)
      omega

end Exact

end Binary

end HpGl
