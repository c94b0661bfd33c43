import HpGl.Proofs.Rounding

/-!
# Arithmetic of doubles

Behind the arithmetic of doubles stands a mantissa with two bits for what was cut off it. As long as
no exponent gets too small or too large, a product or a quotient is the double nearest to it.

* `signBit_signedFloat`, `neg_signedFloat`, `ofInt_isFinite`: doubles by their signs and bits.
* `Represents`: what a mantissa with its two bits stands for; `Represents.shiftRight`,
  `Represents.rounded`: it is kept by shifts and decides how to round.
* **`roundWithAccuracy_rounds`**: the nearest double, by its mantissa and its exponent.
* `Normal.ofFloat_signedFloat`, `Normal.pack`: the bits of that double.
* **`mul_rounds`**, **`div_rounds`**: products and quotients.
* `round_exact`: what is not rounded.
* `toFloat_exact`: decimals that are doubles.
-/

namespace HpGl

/-! ## Signs of doubles -/

namespace Binary

open Float.Model (Format)
open Float.Model.UnpackedFloat

variable {bits : ℕ}

theorem word_signedFloat (negative : Bool) (h : bits < infinityBits) :
    (word (signedFloat negative bits)).toNat = bits + if negative then signWeight else 0 := by
  obtain ⟨u, hu⟩ : ∃ u, u = UInt64.ofNat (bits + if negative then signWeight else 0) := ⟨_, rfl⟩
  have hbits : u.toBitVec.toNat = bits + if negative then signWeight else 0 := by
    rw [hu, UInt64.toNat_toBitVec, UInt64.toNat_ofNat_of_lt']
    unfold infinityBits leadingBit at h
    unfold signWeight UInt64.size
    split <;> omega
  have hnan : @isNaNBits .binary64 u.toBitVec = false := by
    rw [isNaNBits, decide_eq_false_iff_not]
    rintro ⟨hexp, -⟩
    have hexp : (@unpackExponent .binary64 u.toBitVec).toNat = 2047 := congrArg BitVec.toNat hexp
    rw [unpackExponent_toNat, hbits] at hexp
    unfold infinityBits leadingBit at *
    unfold signWeight at hexp
    split at hexp <;> omega
  have hpack := @pack_unpack .binary64 u.toBitVec (by decide)
  rw [hnan, if_neg Bool.false_ne_true] at hpack
  rw [← hbits, ← congrArg BitVec.toNat hpack, hu]
  rfl

theorem magnitudeBits_signedFloat (negative : Bool) (h : bits < infinityBits) :
    magnitudeBits (signedFloat negative bits) = bits := by
  have hword : (signedFloat negative bits).toBits.toNat = _ := word_signedFloat negative h
  unfold infinityBits leadingBit at h
  rw [magnitudeBits, hword]
  unfold signWeight
  split <;> omega

theorem signBit_signedFloat (negative : Bool) (h : bits < infinityBits) :
    signBit (signedFloat negative bits) = negative := by
  have hword : (signedFloat negative bits).toBits.toNat = _ := word_signedFloat negative h
  unfold infinityBits leadingBit at h
  rw [signBit, hword]
  unfold signWeight
  cases negative with
  | false => simpa using by omega
  | true => simp

theorem isFinite_signedFloat (negative : Bool) (h : bits < infinityBits) :
    (signedFloat negative bits).isFinite = true := by
  rw [isFinite_iff, exponentField, magnitudeBits_signedFloat negative h]
  unfold infinityBits leadingBit at *
  omega

theorem magnitudeBits_lt {x : Float} (hx : x.isFinite = true) :
    magnitudeBits x < infinityBits := by
  have hfield := isFinite_iff.mp hx
  unfold exponentField leadingBit at hfield
  unfold infinityBits leadingBit
  omega

theorem unpack_neg {a b : BitVec Format.binary64.numBits} (he : unpackExponent b = unpackExponent a)
    (hm : unpackMantissa b = unpackMantissa a)
    (hs : Sign.ofBitVec (unpackSign b) = -Sign.ofBitVec (unpackSign a)) :
    unpack .binary64 b = (unpack .binary64 a).neg := by
  simp only [unpack, he, hm, hs]
  split
  · split <;> rfl
  · split
    · split <;> rfl
    · rfl

/-- **A minus in front of a number changes its sign bit.** -/
theorem neg_signedFloat (negative : Bool) (h : bits < infinityBits) :
    -signedFloat negative bits = signedFloat (!negative) bits := by
  obtain ⟨x, hx⟩ : ∃ x, x = signedFloat negative bits := ⟨_, rfl⟩
  obtain ⟨y, hy⟩ : ∃ y, y = signedFloat (!negative) bits := ⟨_, rfl⟩
  have hmagnitude : magnitudeBits y = magnitudeBits x := by
    rw [hx, hy, magnitudeBits_signedFloat _ h, magnitudeBits_signedFloat _ h]
  have hexp : unpackExponent (word y) = unpackExponent (word x) := by
    rw [← BitVec.toNat_inj, unpackExponent_word, unpackExponent_word, exponentField, hmagnitude]
    rfl
  have hmantissa : unpackMantissa (word y) = unpackMantissa (word x) := by
    rw [← BitVec.toNat_inj, unpackMantissa_word, unpackMantissa_word, fractionField, hmagnitude]
    rfl
  have hsign : Sign.ofBitVec (unpackSign (word y)) = -Sign.ofBitVec (unpackSign (word x)) := by
    rw [ofBitVec_unpackSign_word, ofBitVec_unpackSign_word, hx, hy, signBit_signedFloat _ h,
      signBit_signedFloat _ h]
    cases negative <;> rfl
  rw [← hx, ← hy]
  calc -x = ⟨.pack (unpack .binary64 (word x)).neg⟩ := rfl
    _ = ⟨.pack (unpack .binary64 (word y))⟩ := by rw [unpack_neg hexp hmantissa hsign]
    _ = Float.ofBits y.toBits := rfl
    _ = y := Float.ofBits_toBits y

theorem isFinite_neg {x : Float} (hx : x.isFinite = true) : (-x).isFinite = true := by
  rw [← signedFloat_magnitudeBits x, neg_signedFloat _ (magnitudeBits_lt hx)]
  exact isFinite_signedFloat _ (magnitudeBits_lt hx)

theorem ofInt_isFinite {n : ℤ} (hn : n.natAbs < 0x10000000000000000) :
    (Float.ofInt n).isFinite = true := by
  cases n with
  | ofNat n => exact ofNat_isFinite hn
  | negSucc n => exact isFinite_neg (ofNat_isFinite hn)

end Binary

/-! ## Rounding -/

/-- A finite double whose leading bit is not missing. -/
structure Binary.Normal (b : Binary) : Prop extends b.Canonical where
  le_mantissa : Binary.leadingBit ≤ b.mantissa

section Rounding

open Float.Model (Format UnpackedFloat totalExponent)
open Float.Model.UnpackedFloat
open Binary (leadingBit)

/-- **What a mantissa with a round bit and a sticky bit stands for.** The round bit is a half, and
without the sticky bit there is nothing but halves. -/
structure Represents (em : ExtendedMantissa) (y : ℚ) : Prop where
  le : em.mantissa ≤ y
  lt : y < em.mantissa + 1
  half : em.roundBit = true ↔ em.mantissa + 1 / 2 ≤ y
  exact : em.stickyBit = false ↔ y = em.mantissa ∨ y = em.mantissa + 1 / 2

/-- An integer is nearest to a number, an even one if two are. -/
def Nearest (r : ℕ) (y : ℚ) : Prop :=
  (r - 1 / 2 ≤ y ∧ y ≤ r + 1 / 2) ∧ (r % 2 = 1 → r - 1 / 2 < y ∧ y < r + 1 / 2)

namespace Represents

variable {em : ExtendedMantissa} {y : ℚ}

theorem whole (m : ℕ) : Represents (.ofMantissaAndAccuracy m .exact) m where
  le := le_refl _
  lt := by simp [ExtendedMantissa.ofMantissaAndAccuracy]
  half := by simp [ExtendedMantissa.ofMantissaAndAccuracy]
  exact := by simp [ExtendedMantissa.ofMantissaAndAccuracy]

theorem quotient (n : ℕ) {d : ℕ} (hd : 0 < d) :
    Represents (.ofMantissaAndAccuracy (n / d) (accuracyOfFraction (n % d) d)) (n / d) := by
  have hlt := Nat.mod_lt n hd
  have hd' : (0 : ℚ) < d := by exact_mod_cast hd
  have hn : (n : ℚ) / d = (n / d : ℕ) + (n % d : ℕ) / d := by
    have : (n : ℚ) = d * (n / d : ℕ) + (n % d : ℕ) := by exact_mod_cast (Nat.div_add_mod n d).symm
    rw [div_eq_iff hd'.ne', add_mul, div_mul_cancel₀ _ hd'.ne', this]
    ring
  rw [hn]
  generalize n / d = q
  generalize n % d = r at hlt
  unfold accuracyOfFraction
  split
  · rename_i h0
    simpa [h0] using whole q
  · rename_i h0
    have hpos : (0 : ℚ) < r / d := div_pos (by exact_mod_cast Nat.pos_of_ne_zero h0) hd'
    have hone : (r : ℚ) / d < 1 := (div_lt_one hd').mpr (by exact_mod_cast hlt)
    cases hcompare : compare (2 * r) d with
    | lt =>
      have hhalf : (r : ℚ) / d < 1 / 2 := by
        have : (2 * r : ℚ) < d := by exact_mod_cast Nat.compare_eq_lt.mp hcompare
        rw [div_lt_iff₀ hd']
        linarith
      change Represents ⟨q, false, true⟩ _
      refine ⟨by linarith, by linarith, ⟨nofun, fun h => by linarith⟩, ⟨nofun, ?_⟩⟩
      rintro (h | h) <;> linarith
    | eq =>
      have hhalf : (r : ℚ) / d = 1 / 2 := by
        have : (2 * r : ℚ) = d := by exact_mod_cast Nat.compare_eq_eq.mp hcompare
        rw [div_eq_iff hd'.ne']
        linarith
      change Represents ⟨q, true, false⟩ _
      rw [hhalf]
      exact ⟨by linarith, by linarith, ⟨fun _ => le_refl _, fun _ => rfl⟩,
        ⟨fun _ => .inr rfl, fun _ => rfl⟩⟩
    | gt =>
      have hhalf : 1 / 2 < (r : ℚ) / d := by
        have : (d : ℚ) < 2 * r := by exact_mod_cast Nat.compare_eq_gt.mp hcompare
        rw [lt_div_iff₀ hd']
        linarith
      change Represents ⟨q, true, true⟩ _
      refine ⟨by linarith, by linarith, ⟨fun _ => by linarith, fun _ => rfl⟩, ⟨nofun, ?_⟩⟩
      rintro (h | h) <;> linarith

theorem shiftRightOne (h : Represents em y) : Represents em.shiftRightOne (y / 2) := by
  obtain ⟨m, r, s⟩ := em
  obtain ⟨hle, hlt, hhalf, hexact⟩ := h
  simp only at hle hlt hhalf hexact
  -- a number without a fraction has neither bit
  have hwhole : (r || s) = false ↔ y = m := by
    rw [Bool.or_eq_false_iff, hexact, ← Bool.not_eq_true, hhalf]
    constructor
    · rintro ⟨hno, h | h⟩
      · exact h
      · exact absurd h.ge hno
    · intro h
      exact ⟨by rw [h]; norm_num, .inl h⟩
  have hm : (m : ℚ) = 2 * (m / 2 : ℕ) + (m % 2 : ℕ) := by exact_mod_cast (Nat.div_add_mod m 2).symm
  change Represents ⟨m / 2, m % 2 != 0, r || s⟩ (y / 2)
  rcases Nat.mod_two_eq_zero_or_one m with h0 | h1
  · rw [h0, Nat.cast_zero, add_zero] at hm
    rw [h0]
    refine ⟨by linarith, by linarith, ⟨nofun, fun h => by linarith⟩, ?_⟩
    rw [hwhole, hm]
    constructor
    · exact fun h => .inl (by linarith)
    · rintro (h | h) <;> linarith
  · rw [h1, Nat.cast_one] at hm
    rw [h1]
    refine ⟨by linarith, by linarith, ⟨fun _ => by linarith, fun _ => rfl⟩, ?_⟩
    rw [hwhole, hm]
    constructor
    · exact fun h => .inr (by linarith)
    · rintro (h | h) <;> linarith

theorem shiftRight (h : Represents em y) (k : ℕ) : Represents (em >>> k) (y / 2 ^ k) := by
  induction k with
  | zero =>
    rw [pow_zero, div_one]
    exact h
  | succ k ih =>
    rw [pow_succ, ← div_div]
    exact ih.shiftRightOne

theorem rounded (h : Represents em y) : Nearest em.roundedMantissa y := by
  obtain ⟨m, r, s⟩ := em
  obtain ⟨hle, hlt, hhalf, hexact⟩ := h
  simp only at hle hlt hhalf hexact
  unfold Nearest
  cases r with
  | false =>
    have hlow : y < m + 1 / 2 := by simpa using hhalf
    have hr : (ExtendedMantissa.mk m false s).roundedMantissa = m := by cases s <;> rfl
    rw [hr]
    exact ⟨⟨by linarith, hlow.le⟩, fun _ => ⟨by linarith, hlow⟩⟩
  | true =>
    have hhigh : m + 1 / 2 ≤ y := hhalf.mp rfl
    cases s with
    | true =>
      have hne : y ≠ m + 1 / 2 := fun h => nomatch hexact.mpr (.inr h)
      have hgt : m + 1 / 2 < y := lt_of_le_of_ne hhigh hne.symm
      have hr : (ExtendedMantissa.mk m true true).roundedMantissa = m + 1 := rfl
      rw [hr]
      push_cast
      exact ⟨⟨by linarith, by linarith⟩, fun _ => ⟨by linarith, by linarith⟩⟩
    | false =>
      -- a tie: the even one of the two
      have hy : y = m + 1 / 2 := (hexact.mp rfl).resolve_left fun h => by linarith
      have hr : (ExtendedMantissa.mk m true false).roundedMantissa = m + m % 2 := rfl
      rw [hr]
      rcases Nat.mod_two_eq_zero_or_one m with h0 | h1
      · rw [h0]
        refine ⟨⟨by push_cast; linarith, by push_cast; linarith⟩, fun h => ?_⟩
        omega
      · rw [h1]
        refine ⟨⟨by push_cast; linarith, by push_cast; linarith⟩, fun h => ?_⟩
        omega

end Represents

theorem rounds_mul {b : Binary} {y : ℚ} (h : (b.lower : ℚ) ≤ 4 * y ∧ 4 * y ≤ b.upper)
    (hodd : b.mantissa % 2 = 1 → (b.lower : ℚ) < 4 * y ∧ 4 * y < b.upper) :
    b.Rounds (y * 2 ^ b.exponent) := by
  have hp := two_zpow_pos b.exponent
  refine ⟨⟨?_, ?_⟩, fun ho => ⟨?_, ?_⟩⟩
  · exact mul_le_mul_of_nonneg_right (by linarith [h.1]) hp.le
  · exact mul_le_mul_of_nonneg_right (by linarith [h.2]) hp.le
  · exact mul_lt_mul_of_pos_right (by linarith [(hodd ho).1]) hp
  · exact mul_lt_mul_of_pos_right (by linarith [(hodd ho).2]) hp

theorem Nearest.rounds {r : ℕ} {y : ℚ} (h : Nearest r y) (hr : leadingBit ≤ r)
    (hy : (leadingBit : ℚ) ≤ y) (negative : Bool) (e : ℤ) :
    (⟨negative, r, e⟩ : Binary).Rounds (y * 2 ^ e) := by
  obtain ⟨⟨hlo, hhi⟩, hodd⟩ := h
  have hupper := Binary.upper_eq ⟨negative, r, e⟩
  simp only at hupper
  by_cases hlead : r = leadingBit
  · have hlower : ((⟨negative, r, e⟩ : Binary).lower : ℚ) ≤ 4 * leadingBit := by
      have : (⟨negative, r, e⟩ : Binary).lower ≤ 4 * leadingBit := by
        unfold Binary.lower
        split <;> simp only [hlead] <;> omega
      exact_mod_cast this
    refine rounds_mul ⟨by linarith, by linarith⟩ fun ho => ?_
    have : leadingBit % 2 = 1 := hlead ▸ ho
    exact absurd this (by decide)
  · have hlower : ((⟨negative, r, e⟩ : Binary).lower : ℚ) = 4 * r - 2 := by
      refine Binary.lower_of_not_narrow ?_ (by simp [Binary.narrowBelow, hlead])
      unfold leadingBit at hr
      simp only
      omega
    refine rounds_mul ⟨by linarith, by linarith⟩ fun ho => ?_
    obtain ⟨h₁, h₂⟩ := hodd ho
    exact ⟨by linarith, by linarith⟩

/-- A mantissa that is rounded up to a power of two: half as much is half as far below it. -/
theorem rounds_of_carry {y : ℚ} (hlo : 2 * (leadingBit : ℚ) - 1 / 2 ≤ y)
    (hhi : y < 2 * (leadingBit : ℚ)) (negative : Bool) {e : ℤ} (he : -1074 ≤ e) :
    (⟨negative, leadingBit, e + 1⟩ : Binary).Rounds (y * 2 ^ e) := by
  have hlower := Binary.lower_of_leading (b := ⟨negative, leadingBit, e + 1⟩) rfl (by simp; omega)
  have hupper := Binary.upper_eq ⟨negative, leadingBit, e + 1⟩
  have hhalf : y * 2 ^ e = y / 2 * 2 ^ (e + 1) := by
    rw [zpow_add_one₀ (by norm_num)]
    ring
  rw [hhalf]
  simp only at hupper
  unfold leadingBit at hlo hhi hupper
  push_cast at hlo hhi hupper
  have heven : ¬ leadingBit % 2 = 1 := by decide
  refine rounds_mul ⟨?_, ?_⟩ fun ho => absurd ho heven
  · rw [hlower]
    linarith
  · rw [hupper]
    linarith

theorem mantissa_ofMantissaAndAccuracy (m : ℕ) (acc : Accuracy) :
    (ExtendedMantissa.ofMantissaAndAccuracy m acc).mantissa = m := by
  rcases acc with _ | _ | _ | _ <;> rfl

theorem shiftToTargetExponent_eq {m k : ℕ} {e : ℤ} (acc : Accuracy) (hk : m.log2 = 52 + k)
    (he : -1074 ≤ e) :
    shiftToTargetExponent .binary64 m e acc =
      (ExtendedMantissa.ofMantissaAndAccuracy m acc >>> k, e + k) := by
  have hshift : (max ((m.log2 : ℤ) + 1 + e - 53) (-1074) - e).toNat = k := by omega
  simp only [shiftToTargetExponent, shiftToExponent, targetExponent_eq, totalExponent, hshift]

theorem Represents.shiftRight_bounds {m k : ℕ} {acc : Accuracy} {y : ℚ}
    (hy : Represents (.ofMantissaAndAccuracy m acc) y) (h0 : m ≠ 0) (hk : m.log2 = 52 + k) :
    (leadingBit : ℚ) ≤ y / 2 ^ k ∧ y / 2 ^ k < 2 * leadingBit := by
  obtain ⟨hle, hlt, -, -⟩ := hy
  rw [mantissa_ofMantissaAndAccuracy] at hle hlt
  have hlow : 2 ^ m.log2 ≤ m := Nat.log2_self_le h0
  have hhigh : m < 2 ^ (m.log2 + 1) := Nat.lt_log2_self
  rw [hk, Nat.pow_add] at hlow
  rw [hk, Nat.add_right_comm, Nat.pow_add] at hhigh
  have hlow' : (leadingBit : ℚ) * 2 ^ k ≤ m := by exact_mod_cast hlow
  have hhigh' : (m : ℚ) + 1 ≤ 2 * leadingBit * 2 ^ k := by exact_mod_cast hhigh
  rw [le_div_iff₀ (by positivity), div_lt_iff₀ (by positivity)]
  exact ⟨hlow'.trans hle, hlt.trans_le hhigh'⟩

theorem Nearest.bounds {r : ℕ} {y : ℚ} (h : Nearest r y) (hlo : (leadingBit : ℚ) ≤ y)
    (hhi : y < 2 * leadingBit) : leadingBit ≤ r ∧ r ≤ 2 * leadingBit := by
  obtain ⟨⟨h₁, h₂⟩, -⟩ := h
  constructor
  · have : (leadingBit : ℚ) < r + 1 := by linarith
    have : leadingBit < r + 1 := by exact_mod_cast this
    omega
  · have : (r : ℚ) < 2 * leadingBit + 1 := by linarith
    have : r < 2 * leadingBit + 1 := by exact_mod_cast this
    omega

theorem roundWithAccuracy_eq {s : Sign} {m : ℕ} {e e₁ e₂ : ℤ} {acc : Accuracy}
    {em₁ em₂ : ExtendedMantissa} (h₁ : shiftToTargetExponent .binary64 m e acc = (em₁, e₁))
    (h₂ : shiftToTargetExponent .binary64 em₁.roundedMantissa e₁ .exact = (em₂, e₂))
    (hpos : 0 < em₂.mantissa) :
    roundWithAccuracy .binary64 s m e acc = .finite s em₂.mantissa e₂ hpos := by
  simp only [roundWithAccuracy, h₁, h₂]
  exact dif_neg hpos.ne'

/-- Rounding after a shift to fifty-three bits. It may carry into one more bit, which takes a second
shift. -/
theorem roundWithAccuracy_of_shift (negative : Bool) (s : Sign) {m : ℕ} {e e₁ : ℤ} {acc : Accuracy}
    {em : ExtendedMantissa} {y : ℚ} (hfirst : shiftToTargetExponent .binary64 m e acc = (em, e₁))
    (hy : Represents em y) (hlo : (leadingBit : ℚ) ≤ y) (hhi : y < 2 * leadingBit)
    (he : -1074 ≤ e₁) (htop : e₁ + 1 ≤ 971) :
    ∃ b : Binary, b.negative = negative ∧ b.Normal ∧ b.Rounds (y * 2 ^ e₁) ∧
      ∃ h, roundWithAccuracy .binary64 s m e acc = .finite s b.mantissa b.exponent h := by
  obtain ⟨r, hr⟩ : ∃ r, r = em.roundedMantissa := ⟨_, rfl⟩
  have hnearest : Nearest r y := hr ▸ hy.rounded
  obtain ⟨hrlo, hrhi⟩ := hnearest.bounds hlo hhi
  rcases Nat.lt_or_eq_of_le hrhi with hlt | heq
  · have hpos : 0 < r := Nat.lt_of_lt_of_le (by decide) hrlo
    have hlog : r.log2 = 52 + 0 := (Nat.log2_eq_iff hpos.ne').mpr ⟨hrlo, hlt⟩
    have hsecond := shiftToTargetExponent_eq .exact hlog he
    rw [Nat.cast_zero, add_zero] at hsecond
    refine ⟨⟨negative, r, e₁⟩, rfl, ⟨⟨hlt, he, by simp only; omega, fun _ => hrlo⟩, hrlo⟩,
      hnearest.rounds hrlo hlo negative _, hpos, ?_⟩
    subst hr
    exact roundWithAccuracy_eq hfirst hsecond hpos
  · have hlog : (2 * leadingBit).log2 = 52 + 1 := by decide
    have hsecond := shiftToTargetExponent_eq .exact hlog he
    have hpos : 0 < leadingBit := by decide
    have hlt : leadingBit < 2 * leadingBit := by decide
    have hlow := hnearest.1.1
    rw [heq] at hlow
    push_cast at hlow
    refine ⟨⟨negative, leadingBit, e₁ + 1⟩, rfl,
      ⟨⟨hlt, by simp only; omega, htop, fun _ => le_refl _⟩, le_refl _⟩,
      rounds_of_carry hlow hhi negative he, hpos, ?_⟩
    rw [← heq, hr] at hsecond
    have hmantissa : (ExtendedMantissa.ofMantissaAndAccuracy em.roundedMantissa .exact >>>
        1).mantissa = leadingBit := by
      rw [← hr, heq]
      rfl
    rw [roundWithAccuracy_eq hfirst hsecond (hmantissa ▸ hpos)]
    simp only [hmantissa]
    rfl

/-- **What is rounded is rounded to the nearest double**, if it has fifty-three bits or more. -/
theorem roundWithAccuracy_rounds (negative : Bool) (s : Sign) {m : ℕ} {e : ℤ} {acc : Accuracy}
    {y : ℚ} (hm : leadingBit ≤ m) (hy : Represents (.ofMantissaAndAccuracy m acc) y)
    (he : -1074 ≤ e) (hhi : m.log2 + e ≤ 1022) :
    ∃ b : Binary, b.negative = negative ∧ b.Normal ∧ b.Rounds (y * 2 ^ e) ∧
      ∃ h, roundWithAccuracy .binary64 s m e acc = .finite s b.mantissa b.exponent h := by
  have h0 : m ≠ 0 := Nat.ne_of_gt (Nat.lt_of_lt_of_le (by decide) hm)
  obtain ⟨k, hk⟩ : ∃ k, m.log2 = 52 + k :=
    Nat.exists_eq_add_of_le ((Nat.le_log2 h0).mpr hm)
  obtain ⟨hlo, hup⟩ := hy.shiftRight_bounds h0 hk
  have hvalue : y * 2 ^ e = y / 2 ^ k * 2 ^ (e + k) := by
    rw [two_zpow_add]
    field_simp
  rw [hvalue]
  exact roundWithAccuracy_of_shift negative s (shiftToTargetExponent_eq acc hk he)
    (hy.shiftRight k) hlo hup (by omega) (by omega)

end Rounding

/-! ## Doubles with all bits of their mantissas -/

namespace Binary

open Float.Model (Format UnpackedFloat totalExponent)
open Float.Model.UnpackedFloat

variable {b : Binary}

theorem Normal.fields (hb : b.Normal) : b.bits / leadingBit = (b.exponent + 1075).toNat ∧
    b.bits % leadingBit = b.mantissa - leadingBit := by
  obtain ⟨⟨hlt, he, -, -⟩, hm⟩ := hb
  unfold bits leadingBit at *
  omega

theorem Normal.bits_lt (hb : b.Normal) : b.bits < infinityBits := by
  obtain ⟨⟨hlt, he, he', -⟩, hm⟩ := hb
  unfold bits infinityBits leadingBit at *
  omega

theorem Normal.ofFloat_signedFloat (hb : b.Normal) :
    ofFloat (signedFloat b.negative b.bits) = b := by
  obtain ⟨hfield, hrest⟩ := hb.fields
  have he := hb.le_exponent
  have hmantissa : leadingBit + (b.mantissa - leadingBit) = b.mantissa :=
    Nat.add_sub_cancel' hb.le_mantissa
  have hexponent : (b.bits : ℤ) / leadingBit - 1075 = b.exponent := by
    rw [← Int.natCast_ediv, hfield]
    omega
  rw [ofFloat, signBit_signedFloat _ hb.bits_lt, magnitudeBits_signedFloat _ hb.bits_lt,
    ofMagnitudeBits, if_neg (by rw [hfield]; omega), hrest, hmantissa, hexponent]

theorem Normal.unpack_signedFloat (hb : b.Normal) :
    ∃ h, unpack .binary64 (word (signedFloat b.negative b.bits)) =
      .finite (if b.negative then .negative else .positive) b.mantissa b.exponent h := by
  obtain ⟨hfield, hrest⟩ := hb.fields
  have he := hb.le_exponent
  have he' := hb.exponent_le
  have hm := hb.le_mantissa
  have hreads := unpack_reads (word (signedFloat b.negative b.bits))
  rw [unpackExponent_word, unpackMantissa_word, ofBitVec_unpackSign_word, exponentField,
    fractionField, magnitudeBits_signedFloat _ hb.bits_lt, signBit_signedFloat _ hb.bits_lt, hfield,
    hrest] at hreads
  generalize unpack .binary64 (word (signedFloat b.negative b.bits)) = u at hreads ⊢
  cases hreads with
  | infinity h => omega
  | notANumber h => omega
  | zero h => omega
  | subnormal _ h => omega
  | @normal m q h _ _ hmantissa hq =>
    have hm : m = b.mantissa := by rw [hmantissa, Nat.add_sub_cancel' hm]
    have hq : q = b.exponent := by
      rw [hq]
      omega
    subst hm hq
    exact ⟨h, rfl⟩

theorem pack_word (x : Float) : (⟨.pack (unpack .binary64 (word x))⟩ : Float) = x :=
  calc (⟨.pack (unpack .binary64 (word x))⟩ : Float) = Float.ofBits x.toBits := rfl
    _ = x := Float.ofBits_toBits x

theorem Normal.pack (hb : b.Normal) (h : 0 < b.mantissa) :
    (⟨.pack (.finite (if b.negative then .negative else .positive) b.mantissa b.exponent h)⟩ :
      Float) = signedFloat b.negative b.bits := by
  obtain ⟨_, hunpack⟩ := hb.unpack_signedFloat
  rw [← hunpack]
  exact pack_word _

theorem negative_ofFloat (x : Float) : (ofFloat x).negative = signBit x := by
  unfold ofFloat ofMagnitudeBits
  split <;> rfl

theorem signedFloat_ofFloat (x : Float) :
    signedFloat (ofFloat x).negative (ofFloat x).bits = x := by
  rw [negative_ofFloat, ofFloat_bits, signedFloat_magnitudeBits]

theorem Normal.isFinite {x : Float} (hx : (ofFloat x).Normal) : x.isFinite = true := by
  rw [← signedFloat_ofFloat x]
  exact isFinite_signedFloat _ hx.bits_lt

theorem Normal.mantissa_ne_zero (hb : b.Normal) : b.mantissa ≠ 0 :=
  Nat.ne_of_gt (Nat.lt_of_lt_of_le (by decide) hb.le_mantissa)

theorem Normal.log2_mantissa (hb : b.Normal) : b.mantissa.log2 = 52 :=
  (Nat.log2_eq_iff hb.mantissa_ne_zero).mpr ⟨hb.le_mantissa, hb.mantissa_lt⟩

/-! ## Products and quotients -/

section Arithmetic

variable {x y : Float}

theorem sign_mul (s t : Bool) :
    ((if s then .negative else .positive : Sign) * if t then .negative else .positive) =
      if s ^^ t then .negative else .positive := by
  cases s <;> cases t <;> rfl

theorem sign_div (s t : Bool) :
    ((if s then .negative else .positive : Sign) / if t then .negative else .positive) =
      if s ^^ t then .negative else .positive := by
  cases s <;> cases t <;> rfl

theorem mul_eq (x y : Float) :
    x * y = ⟨.pack (mul .binary64 (unpack .binary64 (word x)) (unpack .binary64 (word y)))⟩ := rfl

theorem div_eq (x y : Float) :
    x / y = ⟨.pack (div .binary64 (unpack .binary64 (word x)) (unpack .binary64 (word y)))⟩ := rfl

/-- **A product of doubles is the double nearest to it.** -/
theorem mul_rounds (hx : (ofFloat x).Normal) (hy : (ofFloat y).Normal)
    (hlo : -1074 ≤ (ofFloat x).exponent + (ofFloat y).exponent)
    (hhi : (ofFloat x).exponent + (ofFloat y).exponent ≤ 917) :
    (ofFloat (x * y)).Normal ∧
      (ofFloat (x * y)).negative = ((ofFloat x).negative ^^ (ofFloat y).negative) ∧
        (ofFloat (x * y)).Rounds ((ofFloat x).value * (ofFloat y).value) := by
  obtain ⟨_, hunpackx⟩ := hx.unpack_signedFloat
  obtain ⟨_, hunpacky⟩ := hy.unpack_signedFloat
  rw [signedFloat_ofFloat] at hunpackx hunpacky
  rw [mul_eq, hunpackx, hunpacky, mul]
  generalize ofFloat x = a at *
  generalize ofFloat y = c at *
  have hm : leadingBit ≤ a.mantissa * c.mantissa :=
    hx.le_mantissa.trans (Nat.le_mul_of_pos_right _ (Nat.pos_of_ne_zero hy.mantissa_ne_zero))
  have hlog : (a.mantissa * c.mantissa).log2 < 106 := by
    refine (Nat.log2_lt (Nat.ne_of_gt (Nat.lt_of_lt_of_le (by decide) hm))).mpr ?_
    exact Nat.lt_of_lt_of_eq (Nat.mul_lt_mul'' hx.mantissa_lt hy.mantissa_lt) (by decide)
  obtain ⟨b, hnegative, hnormal, hrounds, h, hround⟩ := roundWithAccuracy_rounds
    (a.negative ^^ c.negative) (if a.negative ^^ c.negative then .negative else .positive)
    hm (.whole _) hlo (by omega)
  rw [sign_mul, hround, ← hnegative, hnormal.pack h, hnormal.ofFloat_signedFloat]
  refine ⟨hnormal, rfl, ?_⟩
  have hvalue : a.value * c.value =
      ((a.mantissa * c.mantissa : ℕ) : ℚ) * 2 ^ (a.exponent + c.exponent) := by
    rw [value, value, zpow_add₀ (by norm_num)]
    push_cast
    ring
  rwa [hvalue]

theorem divCore_eq {a c : Binary} (ha : a.Normal) (hc : c.Normal)
    (hlo : -1021 ≤ a.exponent - c.exponent) :
    divCore .binary64 a.mantissa a.exponent c.mantissa c.exponent =
      (a.mantissa * 2 ^ 53 / c.mantissa, a.exponent - c.exponent - 53,
        accuracyOfFraction (a.mantissa * 2 ^ 53 % c.mantissa) c.mantissa) := by
  have hla := ha.log2_mantissa
  have hlc := hc.log2_mantissa
  have htarget : min (a.exponent - c.exponent) (Format.binary64.targetExponent
      (totalExponent a.mantissa a.exponent - totalExponent c.mantissa c.exponent)) =
        a.exponent - c.exponent - 53 := by
    rw [targetExponent_eq, totalExponent, totalExponent, hla, hlc]
    omega
  have hshift : (a.exponent - c.exponent - (a.exponent - c.exponent - 53)).toNat = 53 := by omega
  simp only [divCore, htarget, hshift, Nat.shiftLeft_eq]

/-- **A quotient of doubles is the double nearest to it.** -/
theorem div_rounds (hx : (ofFloat x).Normal) (hy : (ofFloat y).Normal)
    (hlo : -1021 ≤ (ofFloat x).exponent - (ofFloat y).exponent)
    (hhi : (ofFloat x).exponent - (ofFloat y).exponent ≤ 1022) :
    (ofFloat (x / y)).Normal ∧
      (ofFloat (x / y)).negative = ((ofFloat x).negative ^^ (ofFloat y).negative) ∧
        (ofFloat (x / y)).Rounds ((ofFloat x).value / (ofFloat y).value) := by
  obtain ⟨_, hunpackx⟩ := hx.unpack_signedFloat
  obtain ⟨_, hunpacky⟩ := hy.unpack_signedFloat
  rw [signedFloat_ofFloat] at hunpackx hunpacky
  rw [div_eq, hunpackx, hunpacky, div]
  generalize ofFloat x = a at *
  generalize ofFloat y = c at *
  have hc : 0 < c.mantissa := Nat.pos_of_ne_zero hy.mantissa_ne_zero
  have hm : leadingBit ≤ a.mantissa * 2 ^ 53 / c.mantissa := by
    rw [Nat.le_div_iff_mul_le hc]
    exact Nat.mul_le_mul hx.le_mantissa hy.mantissa_lt.le
  have hlog : (a.mantissa * 2 ^ 53 / c.mantissa).log2 < 54 := by
    refine (Nat.log2_lt (Nat.ne_of_gt (Nat.lt_of_lt_of_le (by decide) hm))).mpr ?_
    rw [Nat.div_lt_iff_lt_mul hc]
    have hlt := hx.mantissa_lt
    have hle := hy.le_mantissa
    unfold leadingBit at hlt hle
    omega
  obtain ⟨b, hnegative, hnormal, hrounds, h, hround⟩ := roundWithAccuracy_rounds
    (a.negative ^^ c.negative) (if a.negative ^^ c.negative then .negative else .positive)
    hm (.quotient _ hc) (e := a.exponent - c.exponent - 53) (by omega) (by omega)
  simp only [divCore_eq hx hy hlo]
  rw [sign_div, hround, ← hnegative, hnormal.pack h, hnormal.ofFloat_signedFloat]
  refine ⟨hnormal, rfl, ?_⟩
  have hvalue : a.value / c.value = ((a.mantissa * 2 ^ 53 : ℕ) : ℚ) / c.mantissa *
      2 ^ (a.exponent - c.exponent - 53) := by
    have hne : (c.mantissa : ℚ) ≠ 0 := by exact_mod_cast hc.ne'
    rw [value, value, zpow_sub₀ (by norm_num), zpow_sub₀ (by norm_num)]
    push_cast
    field_simp
  rwa [hvalue]

end Arithmetic

/-! ## Numbers of few bits -/

section Exact

variable {m k : ℕ} {j : ℤ}

theorem normal_scaled (negative : Bool) (h0 : m ≠ 0) (hk : m.log2 + k = 52) (hlo : -1022 ≤ j)
    (hhi : j ≤ 971) :
    (⟨negative, m * 2 ^ k, j - k⟩ : Binary).Normal ∧
      (⟨negative, m * 2 ^ k, j - k⟩ : Binary).value = m * 2 ^ j := by
  have hle : leadingBit ≤ m * 2 ^ k := by
    calc leadingBit = 2 ^ m.log2 * 2 ^ k := by rw [← Nat.pow_add, hk]
      _ ≤ m * 2 ^ k := Nat.mul_le_mul_right _ (Nat.log2_self_le h0)
  have hlt : m * 2 ^ k < 2 * leadingBit := by
    calc m * 2 ^ k < 2 ^ (m.log2 + 1) * 2 ^ k :=
          Nat.mul_lt_mul_of_pos_right Nat.lt_log2_self (by positivity)
      _ = 2 ^ (52 + 1) := by rw [← Nat.pow_add, Nat.add_right_comm, hk]
  refine ⟨⟨⟨hlt, ?_, ?_, fun _ => hle⟩, hle⟩, ?_⟩
  · simp only
    omega
  · simp only
    omega
  · simp only [value]
    rw [two_zpow_sub]
    push_cast
    field_simp

/-- **What fits into fifty-three bits is not rounded.** -/
theorem round_exact (negative : Bool) (s : Sign) (h0 : m ≠ 0) (hm : m < 2 * leadingBit)
    (hlo : -1022 ≤ j) (hhi : j ≤ 971) :
    ∃ b : Binary, b.negative = negative ∧ b.Normal ∧ b.value = m * 2 ^ j ∧
      ∃ h, UnpackedFloat.round .binary64 s m j = .finite s b.mantissa b.exponent h := by
  have hlog : m.log2 < 53 := (Nat.log2_lt h0).mpr hm
  obtain ⟨k, hk⟩ : ∃ k, m.log2 + k = 52 := ⟨52 - m.log2, by omega⟩
  obtain ⟨hb, hvalue⟩ := normal_scaled negative h0 hk hlo hhi
  have hpos : 0 < m * 2 ^ k := Nat.lt_of_lt_of_le (by decide) hb.le_mantissa
  have hshift := shiftToTargetExponent_eq (k := 0) .exact hb.log2_mantissa hb.le_exponent
  rw [Nat.cast_zero, add_zero] at hshift
  have hround : UnpackedFloat.round .binary64 s m j =
      roundWithAccuracy .binary64 s (m * 2 ^ k) (j - k) .exact := by
    have htarget : (j - Format.binary64.targetExponent (totalExponent m j)).toNat = k := by
      rw [targetExponent_eq, totalExponent]
      omega
    simp only [UnpackedFloat.round, decreaseExponent, htarget, Nat.shiftLeft_eq]
  refine ⟨_, rfl, hb, hvalue, hpos, ?_⟩
  rw [hround]
  exact roundWithAccuracy_eq hshift hshift hpos

end Exact

/-! ## Decimals that are doubles -/

theorem exists_normal {m : ℕ} {j : ℤ} (h0 : m ≠ 0) (hm : m < 2 * leadingBit) (hlo : -1022 ≤ j)
    (hhi : j ≤ 971) :
    ∃ b : Binary, b.negative = false ∧ b.Normal ∧ b.value = m * 2 ^ j ∧ j - 52 ≤ b.exponent ∧
      b.exponent ≤ j := by
  have hlog : m.log2 < 53 := (Nat.log2_lt h0).mpr hm
  obtain ⟨k, hk⟩ : ∃ k, m.log2 + k = 52 := ⟨52 - m.log2, by omega⟩
  obtain ⟨hb, hvalue⟩ := normal_scaled false h0 hk hlo hhi
  refine ⟨_, rfl, hb, hvalue, ?_, ?_⟩
  · simp only
    omega
  · simp only
    omega

/-- **A decimal that is a double is read as it.** -/
theorem toFloat_exact {d : Decimal} {m : ℕ} {j : ℤ} (h0 : m ≠ 0) (hm : m < 2 * leadingBit)
    (hlo : -1022 ≤ j) (hhi : j ≤ 971) (hd : d.value = m * 2 ^ j) :
    (ofFloat (d.toFloat false)).negative = false ∧ (ofFloat (d.toFloat false)).Normal ∧
      (ofFloat (d.toFloat false)).value = d.value ∧
        j - 52 ≤ (ofFloat (d.toFloat false)).exponent ∧
          (ofFloat (d.toFloat false)).exponent ≤ j := by
  obtain ⟨b, hnegative, hb, hvalue, hbounds⟩ := exists_normal h0 hm hlo hhi
  have hrounds : b.Rounds d.value := by
    rw [hd, ← hvalue]
    exact rounds_value hb.mantissa_ne_zero
  have hfloat : ofFloat (d.toFloat false) = b := by
    rw [Decimal.toFloat, Decimal.nearestBits_of_rounds hb.toCanonical hb.mantissa_ne_zero hrounds,
      ← hnegative, hb.ofFloat_signedFloat]
  rw [hfloat]
  exact ⟨hnegative, hb, by rw [hd, hvalue], hbounds⟩

theorem toFloat_of_normal {x : Float} {d : Decimal} (hx : (ofFloat x).Normal)
    (hnegative : (ofFloat x).negative = false) (hd : (ofFloat x).Rounds d.value) :
    d.toFloat false = x := by
  have h := Decimal.toFloat_of_rounds hx.isFinite hx.mantissa_ne_zero hd
  rwa [← negative_ofFloat, hnegative] at h

end Binary

end HpGl
