import HpGl.Builder
import HpGl.Proofs.Selection
import HpGl.Proofs.Shortest
import HpGl.Proofs.Wire

/-!
# Numbers on the wire

A double is written with the fewest digits that are read as the double, without an exponent and
without a zero too many at either end. An integer is written as it is. So what an instruction was
given can be read from its text.

* `Numeral.Plain`: the form of a number on the wire; `display_plain`.
* `Written`, **`real_written`**: what is written for a finite double.
* `readInteger?`, `readParams?`: reading parameters of known kinds.
* `Build.Restores`, `restores_instruction`: the parameters of an instruction, from its text.
* **`wire_numbers`**: doubles, integers, and the parameters of all instructions.
-/

namespace HpGl

open Binary (number signBit)

/-! ## The form -/

/-- **A number without an exponent**, with no zero in front of other digits and none at the end of
a fraction. -/
structure Numeral.Plain (n : Numeral) : Prop extends n.WellFormed where
  canonical : n.Canonical
  exponent : n.exponent = none
  fraction_end : ∀ ds ∈ n.fraction, ds.getLast? ≠ some '0'

theorem getLast?_digitsOf {n : ℕ} (h : n % 10 ≠ 0) :
    (Decimal.digitsOf n).getLast? ≠ some '0' := by
  have hlast : (Decimal.digitsOf n).getLast? = some (Nat.digitChar (n % 10)) := by
    unfold Decimal.digitsOf
    by_cases hlt : n < 10
    · rw [Nat.toDigits_of_lt_base hlt, Nat.mod_eq_of_lt hlt]
      rfl
    · rw [Nat.toDigits_of_base_le (by decide) (by omega), List.getLast?_concat]
  have hchar : ∀ k < 10, k ≠ 0 → Nat.digitChar k ≠ '0' := by decide
  rw [hlast]
  exact fun heq => hchar _ (Nat.mod_lt n (by decide)) h (Option.some.inj heq)

theorem plain_zero : (⟨['0'], none, none⟩ : Numeral).Plain where
  whole := isDigits_zero
  fraction := nofun
  canonical := fun _ => rfl
  exponent := rfl
  fraction_end := nofun

theorem display_plain {d : Decimal} (h : d.digits % 10 ≠ 0) : (Layout.display.numeral d).Plain := by
  refine ⟨Layout.display.numeral_wellFormed d, Layout.display.numeral_canonical d ?_, ?_, ?_⟩
  · intro hz
    rw [hz] at h
    exact absurd rfl h
  · change (Layout.display.pointedNumeral d).exponent = none
    simp only [Layout.pointedNumeral]
    split
    · rfl
    · split <;> rfl
  · have hlast := getLast?_digitsOf h
    change ∀ ds ∈ (Layout.display.pointedNumeral d).fraction, ds.getLast? ≠ some '0'
    have hpoint : Layout.display.pointZero = false := rfl
    simp only [Layout.pointedNumeral, hpoint]
    intro ds hds
    split at hds
    · exact absurd hds (Option.not_mem_none _)
    split at hds
    · obtain rfl := Option.some.inj hds
      rwa [List.getLast?_drop, if_neg (by omega)]
    · obtain rfl := Option.some.inj hds
      rwa [List.getLast?_append_of_ne_nil _ (digitsOf_isDigits d.digits).1]

/-! ## Doubles -/

/-- **What is written for a double**: the sign and the parts of its text. The number is read as the
double, no finite double is nearer to it, and nothing with fewer digits is read as the double. Both
zeros are written as zero. -/
structure Written (v : Float) (negative : Bool) (n : Numeral) : Prop where
  chars : (Param.real v).chars = (if negative then ['-'] else []) ++ n.chars
  plain : n.Plain
  reads : n.decimal.toFloat negative = unsignedZero v
  nearest : ∀ w : Float, w.isFinite = true →
    |number v - n.decimal.signed negative| ≤ |number w - n.decimal.signed negative|
  fewest : ∀ (d : Decimal) (s : Bool), d.toFloat s = v → n.decimal.significant ≤ d.significant

theorem written_zero {v : Float} (hz : (v == 0) = true) :
    Written v false ⟨['0'], none, none⟩ := by
  have hdecimal : (⟨['0'], none, none⟩ : Numeral).decimal = ⟨0, 0⟩ := rfl
  constructor
  · rw [Param.chars, if_pos hz]
    rfl
  · exact plain_zero
  · rw [hdecimal, unsignedZero, if_pos hz]
    decide +kernel
  · intro w _
    rw [Binary.number_of_mantissa_eq_zero (Binary.mantissa_eq_zero hz), hdecimal]
    simp [Decimal.signed, Decimal.value]
  · exact fun d s _ => Nat.zero_le _

/-- **What is written for a finite double other than zero.** -/
theorem written_of_ne_zero {v : Float} (hv : v.isFinite = true) (hz : (v == 0) = false) :
    Written v (signBit v) (Layout.display.numeral ((Binary.ofFloat v).shortest .up)) := by
  have hm := mantissa_ne_zero hz
  have hb := Binary.ofFloat_canonical hv
  have hvalue := Layout.display.decimal_numeral_value ((Binary.ofFloat v).shortest .up)
  have hrounds := Binary.shortest_rounds hm .up
  rw [← hvalue] at hrounds
  constructor
  · rw [Param.chars, if_neg (Bool.eq_false_iff.mp hz), chars_of_isFinite _ hv]
    rfl
  · obtain ⟨n, c, -, -, heq⟩ := Binary.exists_shortest hb hm .up
    have hne := Binary.shortest_digits_ne_zero hm .up
    rw [heq] at hne ⊢
    refine display_plain (Decimal.strip_mod fun h0 => hne ?_)
    rw [Decimal.strip, if_pos h0]
  · rw [toFloat_numeral _ _ hv, unsignedZero, if_neg (Bool.eq_false_iff.mp hz)]
  · exact fun w hw => Decimal.nearest_of_rounds hv hw hrounds
  · intro d s h
    rw [Decimal.significant_congr hvalue]
    exact Binary.shortest_fewest hb hm .up ((Decimal.toFloat_eq_iff hv hm).mp h).2

theorem real_written {v : Float} (hv : v.isFinite = true) :
    ∃ (negative : Bool) (n : Numeral), Written v negative n := by
  cases hz : v == 0 with
  | true => exact ⟨_, _, written_zero hz⟩
  | false => exact ⟨_, _, written_of_ne_zero hv hz⟩

theorem real_chars_injective {v w : Float} (hv : v.isFinite = true) (hw : w.isFinite = true)
    (h : (Param.real v).chars = (Param.real w).chars) :
    v = w ∨ (v == 0) = true ∧ (w == 0) = true := by
  have hread : some (unsignedZero v) = some (unsignedZero w) := by
    rw [← readReal?_real hv, ← readReal?_real hw, h]
  have heq := Option.some.inj hread
  have hzero : (0 : Float) == 0 := by decide +kernel
  unfold unsignedZero at heq
  cases hzv : v == 0 with
  | true =>
    cases hzw : w == 0 with
    | true => exact .inr ⟨rfl, rfl⟩
    | false =>
      rw [hzv, hzw, if_pos rfl, if_neg Bool.false_ne_true] at heq
      rw [← heq, hzero] at hzw
      exact nomatch hzw
  | false =>
    cases hzw : w == 0 with
    | true =>
      rw [hzv, hzw, if_pos rfl, if_neg Bool.false_ne_true] at heq
      rw [heq, hzero] at hzv
      exact nomatch hzv
    | false =>
      rw [hzv, hzw, if_neg Bool.false_ne_true, if_neg Bool.false_ne_true] at heq
      exact .inl heq

/-! ## Parameters -/

/-- An integer: digits, after a minus sign when it is negative. -/
def readInteger? : List Char → Option ℤ
  | '-' :: ds => (readNat? ds).map fun (n : ℕ) => -(n : ℤ)
  | ds => (readNat? ds).map fun (n : ℕ) => (n : ℤ)

theorem readNat?_digitsOf (n : ℕ) : readNat? (Decimal.digitsOf n) = some n := by
  rw [readNat?, if_pos, valueOf_digitsOf]
  exact digitsOf_isDigits n

theorem readInteger?_integer (n : ℤ) : readInteger? (Param.integer n).chars = some n := by
  rw [Param.chars, integerChars]
  split
  · rw [readInteger?, readNat?_digitsOf, Option.map_some]
    congr 1
    omega
  · rw [readInteger?, readNat?_digitsOf, Option.map_some]
    · congr 1
      omega
    · intro ds h
      have := digitsOf_isDigit '-' (h ▸ List.mem_cons_self)
      exact absurd this (by decide)

namespace Param

/-- The kinds of parameters. -/
inductive Kind where
  | real
  | integer
  deriving DecidableEq

/-- The kind of a parameter. -/
def kind : Param → Kind
  | real _ => .real
  | integer _ => .integer

/-- A parameter of a known kind. -/
def Kind.read? : Kind → List Char → Option Param
  | real, cs => (readReal? cs).map .real
  | integer, cs => (readInteger? cs).map .integer

/-- The parameter without the sign of a zero. -/
def plain : Param → Param
  | real v => real (unsignedZero v)
  | integer n => integer n

/-- A parameter that is a number. -/
def IsFinite : Param → Prop
  | real v => v.isFinite = true
  | integer _ => True

theorem read?_chars {p : Param} (h : p.IsFinite) : p.kind.read? p.chars = some p.plain := by
  cases p with
  | real v => exact congrArg (Option.map Param.real) (readReal?_real h)
  | integer n => exact congrArg (Option.map Param.integer) (readInteger?_integer n)

end Param

/-- Parameters of known kinds, as many as there are kinds. -/
def readParams? : List Param.Kind → List (List Char) → Option (List Param)
  | [], [] => some []
  | k :: ks, cs :: css => do return (← k.read? cs) :: (← readParams? ks css)
  | _, _ => none

/-- **Parameters are read back** one by one. -/
theorem readParams?_parameters {ps : List Param} (h : ∀ p ∈ ps, p.IsFinite) :
    readParams? (ps.map Param.kind) (parameters (Param.list ps)) = some (ps.map Param.plain) := by
  rw [parameters_list]
  induction ps with
  | nil => rfl
  | cons p ps ih =>
    obtain ⟨hp, hps⟩ := List.forall_mem_cons.mp h
    simp only [List.map_cons, readParams?, Param.read?_chars hp, ih hps]
    rfl

/-- **The parameters of the last instruction are found in its text**: what stands between the
mnemonic and the terminator is split at its commas and read. -/
def Build.Restores (before after : Build) (m : String) (ps : List Param) : Prop :=
  ∃ cs : List Char,
    after.statement.text.toList =
        before.statement.text.toList ++ m.toList ++ cs ++ [terminator] ∧
      readParams? (ps.map Param.kind) (parameters cs) = some (ps.map Param.plain)

theorem Build.restores_opWith (b : Build) (m : String) {ps : List Param}
    (h : ∀ p ∈ ps, p.IsFinite) : b.Restores (b.opWith m ps) m ps := by
  refine ⟨Param.list ps, ?_, readParams?_parameters h⟩
  simp [statement, chars, Piece.chars, Param.list]

/-- **Numbers on the wire are exact.** A finite double is written without an exponent, with the
fewest digits that are read as it, and so that no other double is nearer to what is written. Only
the two zeros are written alike. An integer is written in decimal. Therefore the text between the
mnemonic and the terminator of an instruction, split at its commas, gives back the parameters: as
many as there were, in their order, and each as it was but for the sign of a zero. -/
theorem wire_numbers :
    (∀ v : Float, v.isFinite = true → ∃ (negative : Bool) (n : Numeral), Written v negative n) ∧
    (∀ v w : Float, v.isFinite = true → w.isFinite = true →
      (Param.real v).chars = (Param.real w).chars → v = w ∨ (v == 0) = true ∧ (w == 0) = true) ∧
    (∀ n : ℤ, (Param.integer n).chars = (toString n).toList) ∧
    ∀ (b : Build) (m : String),
      (∀ ps : List Param, (∀ p ∈ ps, p.IsFinite) → b.Restores (b.opWith m ps) m ps) ∧
      (∀ x y : Float, x.isFinite = true → y.isFinite = true →
        b.Restores (b.opAt m x y) m [.real x, .real y]) ∧
      ∀ points : List (Float × Float), (∀ p ∈ points, p.1.isFinite = true ∧ p.2.isFinite = true) →
        b.Restores (b.opPath m points) m (points.flatMap fun (x, y) => [.real x, .real y]) := by
  refine ⟨fun v => real_written, fun v w => real_chars_injective, fun n => (Wire.numeral_eq n).symm,
    fun b m => ⟨fun ps => b.restores_opWith m, fun x y hx hy => ?_, fun points h => ?_⟩⟩
  · refine b.restores_opWith m ?_
    simp [Param.IsFinite, hx, hy]
  · refine b.restores_opWith m ?_
    intro p hp
    obtain ⟨q, hq, hp⟩ := List.mem_flatMap.mp hp
    obtain ⟨hx, hy⟩ := h q hq
    rcases List.mem_pair.mp hp with rfl | rfl
    · exact hx
    · exact hy

/-- A sum that is not three tenths, after an integer and a negative zero. -/
theorem wire_numbers_sum :
    let v : Float := 0.1 + 0.2
    let ps : List Param := [.integer (-2), .real (-0.0), .real v]
    v.isFinite = true ∧ (∀ p ∈ ps, p.IsFinite) ∧ (∃ negative n, Written v negative n) ∧
      Build.new.Restores (Build.new.opWith "PA" ps) "PA" ps ∧
      ps.map Param.plain = [.integer (-2), .real 0, .real v] ∧
      (Build.new.opWith "PA" ps).statement.text = "PA-2,0,0.30000000000000004;" := by
  intro v ps
  have hv : v.isFinite = true := by decide +kernel
  have hzero : (-0.0 : Float).isFinite = true := by decide +kernel
  have hps : ∀ p ∈ ps, p.IsFinite := by
    simp only [ps, List.forall_mem_cons]
    exact ⟨trivial, hzero, hv, nofun⟩
  obtain ⟨hwritten, -, -, hbuild⟩ := wire_numbers
  exact ⟨hv, hps, hwritten v hv, (hbuild .new "PA").1 ps hps, by decide +kernel, by decide +kernel⟩

end HpGl
