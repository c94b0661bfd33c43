import Mathlib
import HpGl.Decimal.Binary

/-!
# Doubles by their bits

What the arithmetic of doubles is needed for here: a number other than zero has digits, and some
products cannot overflow.

* `Reads`: the value behind the bits of a double; `unpack_reads`, `Binary.reads`.
* `isFinite_iff`, `mantissa_ne_zero`, `signBit_of_pos`: finite, non-zero and positive numbers by
  their bits.
* **`exponentField_mul_le`**: how large a product can get.
-/

namespace HpGl

open Float.Model (Format UnpackedFloat totalExponent)
open Float.Model.UnpackedFloat

/-! ## Fields -/

section Fields

variable (b : BitVec Format.binary64.numBits)

theorem unpackExponent_toNat : (unpackExponent b).toNat = b.toNat / Binary.leadingBit % 2048 := by
  simp [unpackExponent, Nat.shiftRight_eq_div_pow]

theorem unpackMantissa_toNat : (unpackMantissa b).toNat = b.toNat % Binary.leadingBit := by
  simp [unpackMantissa]

theorem unpackSign_toNat : (unpackSign b).toNat = b.toNat / Binary.signWeight := by
  have : b.toNat < 18446744073709551616 := b.isLt
  simp [unpackSign, Nat.shiftRight_eq_div_pow]
  omega

theorem appendOne_toNat (m : BitVec Format.binary64.mantissaBitsWithoutImplicit) :
    (1#1 ++ m).toNat = Binary.leadingBit + m.toNat := by
  rw [BitVec.toNat_append, ← Nat.shiftLeft_add_eq_or_of_lt m.isLt]
  rfl

end Fields

/-- **The value behind the bits of a double**, by its exponent field `e` and the rest `f`. -/
inductive Reads (e f : Nat) (s : Sign) : UnpackedFloat → Prop
  | infinity (he : e = 2047) (hf : f = 0) : Reads e f s (.infinity s)
  | notANumber (he : e = 2047) (hf : f ≠ 0) : Reads e f s .notANumber
  | zero (he : e = 0) (hf : f = 0) : Reads e f s (.zero s)
  | subnormal {q : Int} (h : 0 < f) (he : e = 0) (hq : q = -1074) : Reads e f s (.finite s f q h)
  | normal {m : Nat} {q : Int} (h : 0 < m) (h₀ : 0 < e) (hlt : e < 2047)
      (hm : m = Binary.leadingBit + f) (hq : q = e - 1075) : Reads e f s (.finite s m q h)

theorem unpack_reads (b : BitVec Format.binary64.numBits) :
    Reads (unpackExponent b).toNat (unpackMantissa b).toNat (Sign.ofBitVec (unpackSign b))
      (unpack .binary64 b) := by
  have hlt : (unpackExponent b).toNat < 2048 := (unpackExponent b).isLt
  have htop : unpackExponent b = -1#_ ↔ (unpackExponent b).toNat = 2047 := BitVec.toNat_inj.symm
  have hbot : unpackExponent b = 0#_ ↔ (unpackExponent b).toNat = 0 := BitVec.toNat_inj.symm
  have hzero : unpackMantissa b = 0#_ ↔ (unpackMantissa b).toNat = 0 := BitVec.toNat_inj.symm
  have hbias : ((Format.binary64.exponentBias : Int) + Format.binary64.mantissaBitsWithoutImplicit)
    = 1075 := rfl
  simp only [unpack, hbias]
  by_cases ht : unpackExponent b = -1#_
  · rw [if_pos ht]
    by_cases hm : unpackMantissa b = 0#_
    · rw [if_pos hm]
      exact .infinity (htop.mp ht) (hzero.mp hm)
    · rw [if_neg hm]
      exact .notANumber (htop.mp ht) (mt hzero.mpr hm)
  · rw [if_neg ht]
    have := mt htop.mpr ht
    by_cases h0 : unpackExponent b = 0#_
    · rw [if_pos h0]
      by_cases hm : unpackMantissa b = 0#_
      · rw [dif_pos hm]
        exact .zero (hbot.mp h0) (hzero.mp hm)
      · rw [dif_neg hm]
        refine .subnormal _ (hbot.mp h0) ?_
        rw [hbot.mp h0]
        rfl
    · rw [if_neg h0]
      have := mt hbot.mpr h0
      exact .normal _ (by omega) (by omega) (appendOne_toNat _) rfl

namespace Binary

/-- The bits of a double. -/
def word (x : Float) : BitVec Format.binary64.numBits := x.toModel.toBits.toBitVec

/-- The exponent field of a double. -/
def exponentField (x : Float) : Nat := magnitudeBits x / leadingBit

/-- The bits below the exponent field of a double. -/
def fractionField (x : Float) : Nat := magnitudeBits x % leadingBit

theorem unpackExponent_word (x : Float) : (unpackExponent (word x)).toNat = exponentField x := by
  have hw : (word x).toNat = x.toBits.toNat := rfl
  rw [unpackExponent_toNat, hw]
  unfold exponentField magnitudeBits signWeight leadingBit
  omega

theorem unpackMantissa_word (x : Float) : (unpackMantissa (word x)).toNat = fractionField x := by
  have hw : (word x).toNat = x.toBits.toNat := rfl
  rw [unpackMantissa_toNat, hw]
  unfold fractionField magnitudeBits signWeight leadingBit
  omega

theorem ofBitVec_unpackSign_word (x : Float) :
    Sign.ofBitVec (unpackSign (word x)) = if signBit x then .negative else .positive := by
  have hw : (word x).toNat = x.toBits.toNat := rfl
  have hzero : unpackSign (word x) = 0#1 ↔ ¬ signBit x = true := by
    rw [← BitVec.toNat_inj, unpackSign_toNat, hw, signBit, decide_eq_true_eq, Nat.not_le]
    exact Nat.div_eq_zero_iff_lt (by decide)
  by_cases hx : signBit x = true
  · rw [if_pos hx]
    exact if_neg fun e => hzero.mp e hx
  · rw [if_neg hx]
    exact if_pos (hzero.mpr hx)

theorem reads (x : Float) :
    Reads (exponentField x) (fractionField x) (if signBit x then .negative else .positive)
      x.toModel.unpack := by
  rw [← unpackExponent_word, ← unpackMantissa_word, ← ofBitVec_unpackSign_word]
  exact unpack_reads (word x)

end Binary

open Binary

section Predicates

variable {x : Float}

theorem isFinite_iff : x.isFinite = true ↔ exponentField x < 2047 := by
  have h := reads x
  change x.toModel.unpack.isFinite = true ↔ _
  generalize x.toModel.unpack = u at h
  cases h <;> simp_all [isFinite]

theorem isNaN_of_isFinite (hx : x.isFinite = true) : x.isNaN = false := by
  change x.toModel.unpack.isFinite = true at hx
  change x.toModel.unpack.isNaN = false
  generalize x.toModel.unpack = u at hx
  cases u <;> simp_all [isFinite, isNaN]

theorem isInf_of_isFinite (hx : x.isFinite = true) : x.isInf = false := by
  change x.toModel.unpack.isFinite = true at hx
  change x.toModel.unpack.isInf = false
  generalize x.toModel.unpack = u at hx
  cases u <;> simp_all [isFinite, isInf]

theorem magnitudeBits_eq_zero (hm : (ofFloat x).mantissa = 0) : magnitudeBits x = 0 := by
  unfold ofFloat ofMagnitudeBits leadingBit at hm
  split at hm
  · exact hm
  · simp at hm

theorem mantissa_ne_zero (hx : (x == 0) = false) : (ofFloat x).mantissa ≠ 0 := by
  intro hm
  have h := reads x
  change x.toModel.unpack.beq (.zero .positive) = false at hx
  have hbits := magnitudeBits_eq_zero hm
  generalize x.toModel.unpack = u at h hx
  unfold exponentField fractionField at h
  rw [hbits] at h
  cases h with
  | zero => simp [UnpackedFloat.beq, UnpackedFloat.compare] at hx
  | infinity he | notANumber he => exact absurd he (by decide)
  | subnormal h => exact absurd h (by decide)
  | normal _ h => exact absurd h (by decide)

theorem pos_iff : 0 < x ↔ UnpackedFloat.lt (.zero .positive) x.toModel.unpack = true :=
  ⟨fun h => of_decide_eq_true h, fun h => decide_eq_true h⟩

theorem signBit_of_pos (hx : 0 < x) : signBit x = false := by
  have h := reads x
  rw [pos_iff] at hx
  rw [Bool.eq_false_iff]
  intro hs
  rw [if_pos hs] at h
  generalize x.toModel.unpack = u at h hx
  cases h <;> simp [UnpackedFloat.lt, UnpackedFloat.compare] at hx

theorem not_beq_zero_of_pos (hx : 0 < x) : (x == 0) = false := by
  rw [pos_iff] at hx
  change x.toModel.unpack.beq (.zero .positive) = false
  generalize x.toModel.unpack = u at hx
  cases u with
  | zero s => simp [UnpackedFloat.lt, UnpackedFloat.compare] at hx
  | notANumber => rfl
  | infinity s | finite s => cases s <;> rfl

end Predicates

/-! ## Products -/

theorem shiftRight_mantissa (em : ExtendedMantissa) (k : Nat) :
    (em >>> k).mantissa = em.mantissa >>> k := by
  induction k with
  | zero => rfl
  | succ k ih =>
    rw [Nat.shiftRight_succ, ← ih]
    rfl

theorem roundedMantissa_le (em : ExtendedMantissa) : em.roundedMantissa ≤ em.mantissa + 1 := by
  have : em.mantissa % 2 < 2 := Nat.mod_lt _ (by decide)
  rcases em with ⟨m, _ | _, _ | _⟩ <;>
    simp only [ExtendedMantissa.roundedMantissa, ExtendedMantissa.accuracy,
      Accuracy.roundToNearestEven] <;>
    omega

theorem targetExponent_eq (t : Int) : Format.binary64.targetExponent t = max (t - 53) (-1074) := rfl

theorem rounded_log2_lt (m k : Nat) (h : m.log2 < k + 53) :
    (ExtendedMantissa.mk m false false >>> k).roundedMantissa.log2 < 54 := by
  have hm : m >>> k < 0x20000000000000 := by
    rw [Nat.shiftRight_eq_div_pow, Nat.div_lt_iff_lt_mul (Nat.two_pow_pos k)]
    calc m < 2 ^ (m.log2 + 1) := Nat.lt_log2_self
      _ ≤ 2 ^ (53 + k) := Nat.pow_le_pow_right (by decide) (by omega)
      _ = 0x20000000000000 * 2 ^ k := Nat.pow_add 2 53 k
  have hr : (ExtendedMantissa.mk m false false >>> k).roundedMantissa ≤ m >>> k + 1 :=
    shiftRight_mantissa (.mk m false false) k ▸ roundedMantissa_le _
  generalize (ExtendedMantissa.mk m false false >>> k).roundedMantissa = r at hr
  by_cases h0 : r = 0
  · rw [h0]
    decide
  · refine (Nat.log2_lt h0).mpr ?_
    omega

/-- Zero, or a finite number with an exponent of at most `q`. -/
def Below (q : Int) : UnpackedFloat → Prop
  | .zero _ => True
  | .finite _ _ e _ => e ≤ q
  | _ => False

theorem below_of_le {s : Sign} {m : Nat} {e q : Int} (h : e ≤ q) :
    Below q (if h : m = 0 then .zero s else .finite s m e (Nat.pos_of_ne_zero h)) := by
  by_cases hm : m = 0
  · rw [dif_pos hm]
    trivial
  · rw [dif_neg hm]
    exact h

theorem roundWithAccuracy_below {s : Sign} {m : Nat} {e q : Int} (hm : m.log2 + e ≤ q + 51)
    (he : e < q) (hq : -1073 ≤ q) :
    Below q (roundWithAccuracy .binary64 s m e .exact) := by
  simp only [roundWithAccuracy, shiftToTargetExponent, shiftToExponent, targetExponent_eq,
    totalExponent, ExtendedMantissa.ofMantissaAndAccuracy]
  -- the target exponent leaves fifty-three bits or is the lowest there is
  have hr := rounded_log2_lt m (max ((m.log2 : Int) + 1 + e - 53) (-1074) - e).toNat (by omega)
  refine below_of_le ?_
  omega

theorem unpackExponent_pack_le {u : UnpackedFloat} {q : Int} (h : Below q u) (hq : q ≤ 971) :
    (unpackExponent (pack .binary64 u)).toNat ≤ (q + 1075).toNat := by
  cases u with
  | infinity s | notANumber => exact h.elim
  | zero s => simp [pack, packedZero]
  | finite s m e hm =>
    have hb : e + (Format.binary64.exponentBias : Int) +
        Format.binary64.mantissaBitsWithoutImplicit ≤ q + 1075 := by
      have hbias : (Format.binary64.exponentBias : Int) = 1023 := rfl
      have hbits : (Format.binary64.mantissaBitsWithoutImplicit : Int) = 52 := rfl
      simp only [Below] at h
      omega
    have hle := Int.toNat_le_toNat hb
    have hfits : ¬ 2048 ≤ (e + (Format.binary64.exponentBias : Int) +
        Format.binary64.mantissaBitsWithoutImplicit).toNat + 1 := by omega
    simp only [pack]
    rw [if_neg hfits]
    split
    · rw [unpackExponent_packComponents, BitVec.toNat_ofNat]
      exact Nat.le_trans (Nat.mod_le _ _) hle
    · rw [unpackExponent_packComponents]
      exact Nat.zero_le _

theorem unpack_of_exponentField_le {x : Float} {a : Nat} (ha : 1 ≤ a) (hlt : a < 2047)
    (hx : exponentField x ≤ a) :
    (∃ s, x.toModel.unpack = .zero s) ∨
      ∃ s m e h, x.toModel.unpack = .finite s m e h ∧ m < 0x20000000000000 ∧
        e ≤ (a : Int) - 1075 := by
  have hf : fractionField x < leadingBit := Nat.mod_lt _ (by decide)
  have hbit : leadingBit = 0x10000000000000 := rfl
  have h := reads x
  generalize x.toModel.unpack = u at h
  cases h with
  | infinity he | notANumber he => omega
  | zero => exact .inl ⟨_, rfl⟩
  | subnormal => exact .inr ⟨_, _, _, _, rfl, by omega, by omega⟩
  | normal => exact .inr ⟨_, _, _, _, rfl, by omega, by omega⟩

/-- **The size of a product**: exponents add up, less the bias, and rounding may carry. -/
theorem exponentField_mul_le {x y : Float} {a b n : Nat} (hx : exponentField x ≤ a)
    (hy : exponentField y ≤ b) (ha : 1 ≤ a) (ha' : a < 2047) (hb : 1 ≤ b) (hb' : b < 2047)
    (hn : a + b ≤ n + 1021) (hn' : 2 ≤ n) (hn'' : n < 2047) : exponentField (x * y) ≤ n := by
  have hbelow : Below ((n : Int) - 1075) (mul .binary64 x.toModel.unpack y.toModel.unpack) := by
    rcases unpack_of_exponentField_le ha ha' hx with ⟨s, hu⟩ | ⟨s, m, e, h, hu, hm, he⟩ <;>
      rcases unpack_of_exponentField_le hb hb' hy with ⟨t, hv⟩ | ⟨t, k, f, h', hv, hk, hf⟩ <;>
        rw [hu, hv]
    · trivial
    · trivial
    · trivial
    · have hlog : (m * k).log2 < 106 := by
        refine (Nat.log2_lt (Nat.mul_ne_zero (by omega) (by omega))).mpr ?_
        exact Nat.lt_of_lt_of_eq (Nat.mul_lt_mul'' hm hk) (by decide)
      exact roundWithAccuracy_below (by omega) (by omega) (by omega)
  have h := unpackExponent_pack_le hbelow (by omega)
  rw [← unpackExponent_word]
  exact Nat.le_trans h (by omega)

/-! ## Whole numbers -/

section WholeNumbers

theorem exponentField_pack_le {u : UnpackedFloat} {q : Int} (h : Below q u) (hq : q ≤ 971) :
    exponentField ⟨.pack u⟩ ≤ (q + 1075).toNat := by
  rw [← unpackExponent_word]
  exact unpackExponent_pack_le h hq

theorem log2_shiftLeft_lt {n k : Nat} (hn : n < 0x10000000000000000) (h0 : n ≠ 0) :
    (n <<< k).log2 < 64 + k := by
  have hne : n <<< k ≠ 0 := by
    rw [Nat.shiftLeft_eq]
    exact Nat.mul_ne_zero h0 (Nat.ne_of_gt (Nat.two_pow_pos k))
  refine (Nat.log2_lt hne).mpr ?_
  rw [Nat.shiftLeft_eq, Nat.pow_add]
  exact Nat.mul_lt_mul_of_pos_right hn (Nat.two_pow_pos k)

theorem normalize_below {n : Nat} (hn : n < 0x10000000000000000) :
    Below 12 (normalize .binary64 n 0 .positive) := by
  unfold UnpackedFloat.normalize
  split
  · rename_i h
    exact absurd (Int.compare_eq_lt.mp h) (by omega)
  · trivial
  · rename_i h
    have h0 : n ≠ 0 := by
      have := Int.compare_eq_gt.mp h
      omega
    have hlog := fun k => log2_shiftLeft_lt (k := k) hn h0
    simp only [UnpackedFloat.round, decreaseExponent, Int.toNat_natCast]
    generalize (0 - Format.binary64.targetExponent (totalExponent n 0)).toNat = k
    have := hlog k
    exact roundWithAccuracy_below (by omega) (by omega) (by omega)

theorem ofScientific_below {n : Nat} (hn : n < 0x10000000000000000) :
    Below 12 (ofScientific .binary64 n 0) := by
  have hlow : ¬ (0 : Int) < -((2 ^ Format.binary64.exponentBits : Int) + n.log2) := by
    have : (0 : Int) < 2 ^ Format.binary64.exponentBits := by decide
    omega
  unfold UnpackedFloat.ofScientific
  split
  · trivial
  · rename_i h0
    rw [if_neg (by decide), if_pos (by decide)]
    have hlog := log2_shiftLeft_lt (k := Format.binary64.mantissaBits) hn h0
    have hbits : Format.binary64.mantissaBits = 53 := rfl
    simp only [mul, Int.toNat_zero, Nat.pow_zero, Nat.mul_one, hbits] at hlog ⊢
    refine roundWithAccuracy_below ?_ ?_ ?_
    · push_cast
      omega
    · decide
    · decide

theorem ofNat_isFinite {n : Nat} (hn : n < 0x10000000000000000) :
    (Float.ofNat n).isFinite = true := by
  change (Float.ofScientific n false 0).isFinite = true
  unfold Float.ofScientific
  split
  · have hbelow := normalize_below n.toUInt64.toNat_lt
    have hn : exponentField n.toUInt64.toFloat ≤ 1087 := exponentField_pack_le hbelow (by decide)
    have hone : exponentField Float.exactlyRepresentablePowersOfTen[0] ≤ 1023 := by decide +kernel
    have hprod := exponentField_mul_le hn hone (by decide) (by decide) (by decide) (by decide)
      (n := 1089) (by decide) (by decide) (by decide)
    exact isFinite_iff.mpr (Nat.lt_of_le_of_lt hprod (by decide))
  · have hbelow := exponentField_pack_le (ofScientific_below hn) (by decide)
    exact isFinite_iff.mpr (Nat.lt_of_le_of_lt hbelow (by decide))

end WholeNumbers

end HpGl
