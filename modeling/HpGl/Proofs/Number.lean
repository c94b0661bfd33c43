import HpGl.Decimal.Layout
import HpGl.Proofs.Double

/-!
# The text of a number

A finite number is written with digits, a point between digits and a minus in front, never with an
exponent, and a number other than zero shows a digit other than zero. Numbers that are not finite
are words of a few letters.

* `isNumeric`, `display_numeric`: the characters of any number.
* `IsMagnitude`, `IsNumber`, `IsPositive`: the forms of a number; `pointed_isMagnitude`.
* `shortest_digits_ne_zero`: a number other than zero has a digit other than zero.
* **`display_isNumber`**, `display_isPositive`: finite numbers have these forms.
-/

namespace HpGl

/-! ## Characters -/

/-- A digit, a sign, a point, or a letter of the two words for what is no number. -/
def isNumeric (c : Char) : Bool := c.isDigit || "-.NaNinf".toList.contains c

theorem digitsOf_isDigit {n : Nat} : ∀ c ∈ Decimal.digitsOf n, c.isDigit = true :=
  fun _ h => Nat.isDigit_of_mem_toDigits (by decide) (by decide) h

theorem digitsOf_numeric {n : Nat} : ∀ c ∈ Decimal.digitsOf n, isNumeric c = true :=
  fun c h => by rw [isNumeric, digitsOf_isDigit c h, Bool.true_or]

theorem replicate_numeric (n : Nat) : ∀ c ∈ List.replicate n '0', isNumeric c = true :=
  fun _ h => List.eq_of_mem_replicate h ▸ by decide

theorem integerChars_numeric (n : Int) : ∀ c ∈ integerChars n, isNumeric c = true := by
  unfold integerChars
  split
  · exact List.forall_mem_cons.mpr ⟨by decide, digitsOf_numeric⟩
  · exact digitsOf_numeric

theorem pointed_numeric (l : Layout) (d : Decimal) : ∀ c ∈ l.pointed d, isNumeric c = true := by
  have hds := digitsOf_numeric (n := d.digits)
  have hpoint : isNumeric '.' = true := by decide
  have hzero : isNumeric '0' = true := by decide
  simp only [Layout.pointed]
  split
  · refine List.forall_mem_append.mpr ⟨List.forall_mem_append.mpr ⟨hds, replicate_numeric _⟩, ?_⟩
    split
    · simp [hpoint, hzero]
    · simp
  · split
    · refine List.forall_mem_append.mpr ⟨fun c h => hds c (List.mem_of_mem_take h), ?_⟩
      exact List.forall_mem_cons.mpr ⟨hpoint, fun c h => hds c (List.mem_of_mem_drop h)⟩
    · simp only [List.forall_mem_cons, List.forall_mem_append]
      exact ⟨hzero, hpoint, replicate_numeric _, hds⟩

theorem display_numeric (v : Float) : ∀ c ∈ Layout.display.chars v, isNumeric c = true := by
  have hsign : ∀ c ∈ (if Binary.signBit v then ['-'] else []), isNumeric c = true := by
    split
    · exact List.forall_mem_singleton.mpr (by decide)
    · exact List.forall_mem_nil _
  simp only [Layout.chars]
  split
  · exact List.all_eq_true.mp (by decide)
  · split
    · exact List.forall_mem_append.mpr ⟨hsign, List.all_eq_true.mp (by decide)⟩
    · exact List.forall_mem_append.mpr ⟨hsign, pointed_numeric _ _⟩

/-! ## Forms -/

/-- One digit at least, and nothing but digits. -/
def IsDigits (cs : List Char) : Prop := cs ≠ [] ∧ ∀ c ∈ cs, c.isDigit = true

/-- Digits, and then maybe a point and digits. -/
inductive IsMagnitude : List Char → Prop
  | whole {ds : List Char} (h : IsDigits ds) : IsMagnitude ds
  | fraction {ds es : List Char} (h : IsDigits ds) (h' : IsDigits es) :
    IsMagnitude (ds ++ '.' :: es)

/-- Some digit is not `0`. -/
def ShowsDigit (cs : List Char) : Prop := ∃ c ∈ cs, c.isDigit = true ∧ c ≠ '0'

/-- A number other than zero, without a sign. -/
def IsPositive (cs : List Char) : Prop := IsMagnitude cs ∧ ShowsDigit cs

/-- **The form of a number.** What has a minus in front is not zero. -/
inductive IsNumber : List Char → Prop
  | plain {cs : List Char} (h : IsMagnitude cs) : IsNumber cs
  | minus {cs : List Char} (h : IsPositive cs) : IsNumber ('-' :: cs)

theorem digitsOf_isDigits (n : Nat) : IsDigits (Decimal.digitsOf n) :=
  ⟨Nat.toDigits_ne_nil, digitsOf_isDigit⟩

theorem isDigits_zero : IsDigits ['0'] :=
  ⟨List.cons_ne_nil _ _, List.forall_mem_singleton.mpr (by decide)⟩

theorem pointed_isMagnitude (d : Decimal) : IsMagnitude (Layout.display.pointed d) := by
  obtain ⟨hne, hds⟩ := digitsOf_isDigits d.digits
  have hzero : ∀ n, ∀ c ∈ List.replicate n '0', c.isDigit = true :=
    fun n c h => List.eq_of_mem_replicate h ▸ by decide
  have hpoint : Layout.display.pointZero = false := rfl
  simp only [Layout.pointed]
  split
  · rw [hpoint, if_neg Bool.false_ne_true, List.append_nil]
    exact .whole ⟨by simp [hne], List.forall_mem_append.mpr ⟨hds, hzero _⟩⟩
  · split
    · refine .fraction ⟨?_, fun c h => hds c (List.mem_of_mem_take h)⟩
        ⟨?_, fun c h => hds c (List.mem_of_mem_drop h)⟩
      · refine List.ne_nil_of_length_pos ?_
        rw [List.length_take]
        omega
      · refine List.ne_nil_of_length_pos ?_
        rw [List.length_drop]
        omega
    · refine .fraction isDigits_zero ⟨?_, List.forall_mem_append.mpr ⟨hzero _, hds⟩⟩
      simp [hne]

/-! ## Digits other than zero -/

theorem digitsOf_showsDigit {n : Nat} (h : n ≠ 0) : ShowsDigit (Decimal.digitsOf n) := by
  refine Classical.byContradiction fun hno => h ?_
  have hzero : ∀ c ∈ Decimal.digitsOf n, c = '0' := by
    intro c hc
    refine Classical.byContradiction fun hne => hno ⟨c, hc, digitsOf_isDigit c hc, hne⟩
  have hrep := List.eq_replicate_of_mem hzero
  have hval : Nat.ofDigitChars 10 (Decimal.digitsOf n) 0 = n :=
    Nat.ofDigitChars_toDigits (by decide) (by decide)
  rw [← hval, hrep]
  simp [Nat.ofDigitChars_replicate_zero]

theorem pointed_showsDigit {d : Decimal} (h : d.digits ≠ 0) :
    ShowsDigit (Layout.display.pointed d) := by
  obtain ⟨c, hc, hdigit, hne⟩ := digitsOf_showsDigit h
  refine ⟨c, ?_, hdigit, hne⟩
  simp only [Layout.pointed]
  split
  · simp [hc]
  · split
    · have hsplit := List.take_append_drop
        ((Decimal.digitsOf d.digits).length - d.exponent.natAbs) (Decimal.digitsOf d.digits)
      rw [← hsplit, List.mem_append] at hc
      rcases hc with hc | hc
      · exact List.mem_append_left _ hc
      · exact List.mem_append_right _ (List.mem_cons_of_mem _ hc)
    · simp [hc]

theorem stripUpTo_digits_ne_zero {d : Decimal} (h : d.digits ≠ 0) (fuel : Nat) :
    (Decimal.stripUpTo fuel d).digits ≠ 0 := by
  induction fuel generalizing d with
  | zero => exact h
  | succ fuel ih =>
    rw [Decimal.stripUpTo]
    split
    · refine ih ?_
      simp only
      omega
    · exact h

theorem strip_digits_ne_zero {d : Decimal} (h : d.digits ≠ 0) : d.strip.digits ≠ 0 := by
  rw [Decimal.strip, if_neg h]
  exact stripUpTo_digits_ne_zero h _

namespace Binary

variable {b : Binary}

theorem quarter_pos (g : Int) : 0 < b.quarter g :=
  Nat.mul_pos (Nat.pow_pos (by decide)) (Nat.pow_pos (by decide))

theorem lower_pos (h : b.mantissa ≠ 0) : 0 < b.lower := by
  unfold lower
  split <;> omega

theorem ne_zero_of_readsBack (h : b.mantissa ≠ 0) {d : Nat} {g : Int}
    (hd : b.readsBack d g = true) : d ≠ 0 := by
  rintro rfl
  have hpos := Nat.mul_pos (lower_pos h) (quarter_pos (b := b) g)
  simp only [readsBack, Nat.zero_mul] at hd
  split at hd
  · simp only [Bool.and_eq_true, decide_eq_true_eq] at hd
    exact absurd hd.1 (Nat.not_le.mpr hpos)
  · simp only [Bool.and_eq_true, decide_eq_true_eq] at hd
    exact absurd hd.1 (Nat.not_lt_zero _)

theorem nearer_ne_zero {d : Nat} (hd : d ≠ 0) (tie : Tie) (g : Int) : b.nearer tie d g ≠ 0 := by
  unfold nearer
  split <;> omega

theorem onGrid_ne_zero (h : b.mantissa ≠ 0) {tie : Tie} {g : Int} {d : Nat}
    (hd : b.onGrid tie g = some d) : d ≠ 0 := by
  simp only [onGrid] at hd
  generalize 4 * b.mantissa * b.quarter g / b.gridStep g = k at hd
  split at hd
  · rename_i hlow _
    rw [← Option.some.inj hd]
    exact nearer_ne_zero (ne_zero_of_readsBack h hlow) tie g
  · rename_i hlow _
    rw [← Option.some.inj hd]
    exact ne_zero_of_readsBack h hlow
  · rw [← Option.some.inj hd]
    exact Nat.succ_ne_zero k
  · exact nomatch hd

theorem exact_digits_ne_zero (h : b.mantissa ≠ 0) : b.exact.digits ≠ 0 := by
  have h2 : Nat.pow 2 b.exponent.toNat ≠ 0 := Nat.ne_of_gt (Nat.pow_pos (by decide))
  have h5 : Nat.pow 5 (-b.exponent).toNat ≠ 0 := Nat.ne_of_gt (Nat.pow_pos (by decide))
  exact Nat.mul_ne_zero (Nat.mul_ne_zero h h2) h5

theorem shortest_digits_ne_zero (h : b.mantissa ≠ 0) (tie : Tie) :
    (b.shortest tie).digits ≠ 0 := by
  simp only [shortest]
  rw [if_neg h]
  split
  · rename_i d hd
    obtain ⟨n, -, hn⟩ := List.exists_of_findSome?_eq_some hd
    obtain ⟨k, hk, rfl⟩ := Option.map_eq_some_iff.mp hn
    exact strip_digits_ne_zero (onGrid_ne_zero h hk)
  · exact strip_digits_ne_zero (exact_digits_ne_zero h)

end Binary

/-! ## Finite numbers -/

variable {v : Float}

theorem display_eq (h : v.isFinite = true) :
    Layout.display.chars v = (if Binary.signBit v then ['-'] else []) ++
      Layout.display.pointed ((Binary.ofFloat v).shortest .up) := by
  simp only [Layout.chars, isNaN_of_isFinite h, isInf_of_isFinite h, Bool.false_eq_true, if_false]
  rfl

theorem display_isPositive_of (hz : (v == 0) = false) :
    IsPositive (Layout.display.pointed ((Binary.ofFloat v).shortest .up)) :=
  ⟨pointed_isMagnitude _,
    pointed_showsDigit (Binary.shortest_digits_ne_zero (mantissa_ne_zero hz) _)⟩

/-- **A finite number other than zero is written as a number.** -/
theorem display_isNumber (h : v.isFinite = true) (hz : (v == 0) = false) :
    IsNumber (Layout.display.chars v) := by
  rw [display_eq h]
  split
  · exact .minus (display_isPositive_of hz)
  · exact .plain (pointed_isMagnitude _)

theorem display_isPositive (h : v.isFinite = true) (hp : 0 < v) :
    IsPositive (Layout.display.chars v) := by
  rw [display_eq h, signBit_of_pos hp]
  exact display_isPositive_of (not_beq_zero_of_pos hp)

end HpGl
