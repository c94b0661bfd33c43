import HpGl.Proofs.Number
import HpGl.Proofs.Sendable

/-!
# The wire format

Every statement that a drawing call composes is a sequence of instructions, each of one of a few
forms and with its parameters in range, whatever the transform and the arguments are.

* `Wire.Form`: a mnemonic and its parameters; `Wire.IsInstruction`: one instruction on the wire.
* `real_isNumber`, `real_isPositive`: finite parameters are numbers.
* `piece_isInstruction`: what is written for one instruction.
* **`compose_wire`**: all statements are sequences of these.
-/

namespace HpGl

/-! ## The format -/

namespace Wire

/-- The digits of an integer, after a minus sign when it is negative. -/
def numeral (n : Int) : List Char := (toString n).toList

/-- An integer of 32 bits. -/
def IsInteger (cs : List Char) : Prop :=
  ∃ n : Int, -0x80000000 ≤ n ∧ n ≤ 0x7FFFFFFF ∧ cs = numeral n

/-- The chord angle, if it is there. -/
inductive IsChord : List (List Char) → Prop
  | default : IsChord []
  | angle {c : List Char} (h : IsPositive c) : IsChord [c]

/-- **The forms of an instruction**: its mnemonic and its parameters. -/
inductive Form : String → List (List Char) → Prop
  | reset : Form "IN" []
  | selectPen {n : Int} (h₀ : 0 ≤ n) (h : n ≤ 6) : Form "SP" [numeral n]
  | penUp : Form "PU" []
  | penUpAt {x y : List Char} (hx : IsNumber x) (hy : IsNumber y) : Form "PU" [x, y]
  | penDown {path : List (List Char)} (h : ∀ x ∈ path, IsNumber x) (heven : path.length % 2 = 0) :
    Form "PD" path
  | plotAbsolute {x y : List Char} (hx : IsNumber x) (hy : IsNumber y) : Form "PA" [x, y]
  | solidLine : Form "LT" []
  | pattern {n : Int} (h₀ : 0 ≤ n) (h : n ≤ 6) : Form "LT" [numeral n]
  | patternLength {n : Int} {s : List Char} (h₀ : 0 ≤ n) (h : n ≤ 6) (hs : IsNumber s) :
    Form "LT" [numeral n, s]
  | solidFill {n : Int} (h : n = 1 ∨ n = 2) : Form "FT" [numeral n]
  | hatching {n : Int} {s a : List Char} (h : n = 3 ∨ n = 4) (hs : IsNumber s) (ha : IsNumber a) :
    Form "FT" [numeral n, s, a]
  | rotate {i : List Char} (h : IsInteger i) : Form "RO" [i]
  | velocity {v : List Char} (h : IsPositive v) : Form "VS" [v]
  | circle {r : List Char} {c : List (List Char)} (hr : IsNumber r) (hc : IsChord c) :
    Form "CI" (r :: c)
  | arcAbsolute {x y i : List Char} {c : List (List Char)} (hx : IsNumber x) (hy : IsNumber y)
      (hi : IsInteger i) (hc : IsChord c) : Form "AA" (x :: y :: i :: c)
  | edgeWedge {r i j : List Char} {c : List (List Char)} (hr : IsNumber r) (hi : IsInteger i)
      (hj : IsInteger j) (hc : IsChord c) : Form "EW" (r :: i :: j :: c)
  | fillWedge {r i j : List Char} {c : List (List Char)} (hr : IsNumber r) (hi : IsInteger i)
      (hj : IsInteger j) (hc : IsChord c) : Form "WG" (r :: i :: j :: c)
  | edgeRectangle {w h : List Char} (hw : IsNumber w) (hh : IsNumber h) : Form "ER" [w, h]
  | fillRectangle {w h : List Char} (hw : IsNumber w) (hh : IsNumber h) : Form "RR" [w, h]
  | openPolygon : Form "PM" [numeral 0]
  | closePolygon : Form "PM" [numeral 2]
  | edgePolygon : Form "EP" []
  | fillPolygon : Form "FP" []
  | standardSet : Form "SS" []
  | characterSize {w h : List Char} (hw : IsNumber w) (hh : IsNumber h) : Form "SI" [w, h]

/-- **One instruction on the wire**: a form with its parameters separated by commas and a semicolon
behind them, or a label. -/
inductive IsInstruction : List Char → Prop
  | command {m : String} {ps : List (List Char)} (h : Form m ps) :
    IsInstruction (m.toList ++ [','].intercalate ps ++ [';'])
  | label {text : List Char} (h : '\x03' ∉ text) :
    IsInstruction ('L' :: 'B' :: (text ++ ['\x03']))

theorem numeral_eq (n : Int) : numeral n = integerChars n := by
  cases n with
  | ofNat n =>
    have h : ¬ Int.ofNat n < 0 := Int.not_lt.mpr (Int.natCast_nonneg n)
    rw [integerChars, if_neg h]
    exact Nat.toList_repr
  | negSucc n =>
    rw [integerChars, if_pos (Int.negSucc_lt_zero n)]
    change ("-" ++ (n + 1).repr).toList = _
    rw [String.toList_append, Nat.toList_repr]
    rfl

theorem int32_isInteger (n : Int32) : IsInteger (integerChars n.toInt) :=
  ⟨n.toInt, n.le_toInt, n.toInt_le, (numeral_eq _).symm⟩

end Wire

/-! ## Parameters -/

section Parameters

variable {v : Float}

theorem real_isNumber (h : v.isFinite = true) : IsNumber (Param.real v).chars := by
  rw [Param.chars]
  by_cases hz : (v == 0) = true
  · rw [if_pos hz]
    exact .plain (.whole isDigits_zero)
  · rw [if_neg hz]
    exact display_isNumber h (Bool.eq_false_iff.mpr hz)

theorem real_isPositive (h : Positive v) : IsPositive (Param.real v).chars := by
  rw [Param.chars, not_beq_zero_of_pos h.2, if_neg Bool.false_ne_true]
  exact display_isPositive h.1 h.2

theorem point_isNumber {p : Point} (h : p.isFinite = true) :
    IsNumber (Param.real p.x).chars ∧ IsNumber (Param.real p.y).chars := by
  rw [Point.isFinite, Bool.and_eq_true] at h
  exact ⟨real_isNumber h.1, real_isNumber h.2⟩

theorem chordParam_isChord {c : Option Float} (h : ChordSendable c) :
    Wire.IsChord ((Instruction.chordParam c).map Param.chars) := by
  cases c with
  | none => exact .default
  | some r => exact .angle (real_isPositive (h r rfl))

theorem path_form {ps : List Point} (h : ∀ p ∈ ps, p.isFinite = true) :
    Wire.Form "PD" (((ps.map fun p => (p.x, p.y)).flatMap fun (x, y) =>
      [Param.real x, .real y]).map Param.chars) := by
  refine .penDown ?_ ?_
  · intro cs hcs
    simp only [List.mem_map, List.mem_flatMap] at hcs
    obtain ⟨q, ⟨_, ⟨p, hp, rfl⟩, hq⟩, rfl⟩ := hcs
    obtain ⟨hx, hy⟩ := point_isNumber (h p hp)
    simp only [List.mem_cons, List.not_mem_nil, or_false] at hq
    rcases hq with rfl | rfl
    · exact hx
    · exact hy
  · rw [List.length_map]
    induction ps with
    | nil => rfl
    | cons p ps ih =>
      have := ih (List.forall_mem_cons.mp h).2
      simp only [List.map_cons, List.flatMap_cons, List.length_append, List.length_cons] at this ⊢
      simpa using this

end Parameters

/-! ## Statements -/

theorem command_isInstruction {m : String} {ps : List Param}
    (h : Wire.Form m (ps.map Param.chars)) : Wire.IsInstruction (Piece.instruction m ps).chars :=
  .command h

theorem numeral_isInstruction {m : String} {n : Int} {ps : List Param}
    (h : Wire.Form m (Wire.numeral n :: ps.map Param.chars)) :
    Wire.IsInstruction (Piece.instruction m (.integer n :: ps)).chars := by
  rw [Wire.numeral_eq] at h
  exact command_isInstruction h

theorem piece_isInstruction {i : Instruction} (h : i.Sendable) :
    Wire.IsInstruction i.piece.chars := by
  cases i with
  | label text => exact .label h
  | reset => exact command_isInstruction .reset
  | openPolygon => exact command_isInstruction .openPolygon
  | closePolygon => exact command_isInstruction .closePolygon
  | edgePolygon => exact command_isInstruction .edgePolygon
  | fillPolygon => exact command_isInstruction .fillPolygon
  | standardSet => exact command_isInstruction .standardSet
  | selectPen slot =>
    exact numeral_isInstruction (.selectPen (Int.natCast_nonneg slot) (Int.ofNat_le.mpr h))
  | penUp target =>
    cases target with
    | none => exact command_isInstruction .penUp
    | some p =>
      obtain ⟨hx, hy⟩ := point_isNumber (h p rfl)
      exact command_isInstruction (.penUpAt hx hy)
  | penDown path => exact command_isInstruction (path_form h)
  | plotAbsolute p =>
    obtain ⟨hx, hy⟩ := point_isNumber h
    exact command_isInstruction (.plotAbsolute hx hy)
  | lineType pattern =>
    rcases pattern with _ | ⟨n, _ | s⟩
    · exact command_isInstruction .solidLine
    · have hn := Int.ofNat_le.mpr (h _ rfl).1
      exact numeral_isInstruction (.pattern (Int.natCast_nonneg n) hn)
    · obtain ⟨hn, hs⟩ := h _ rfl
      exact numeral_isInstruction (.patternLength (Int.natCast_nonneg n) (Int.ofNat_le.mpr hn)
        (real_isNumber (hs s rfl)))
  | fillType model hatching =>
    rcases hatching with _ | ⟨s, a⟩
    · have hm : (model : Int) = 1 ∨ (model : Int) = 2 := h.imp (congrArg _) (congrArg _)
      exact numeral_isInstruction (.solidFill hm)
    · obtain ⟨hm, hs, ha⟩ := h
      have hm' : (model : Int) = 3 ∨ (model : Int) = 4 := hm.imp (congrArg _) (congrArg _)
      exact numeral_isInstruction (.hatching hm' (real_isNumber hs) (real_isNumber ha))
  | rotate n => exact command_isInstruction (.rotate (Wire.int32_isInteger n))
  | velocity v => exact command_isInstruction (.velocity (real_isPositive h))
  | circle r c =>
    exact command_isInstruction (.circle (real_isNumber h.1) (chordParam_isChord h.2))
  | arcAbsolute p n c =>
    obtain ⟨hx, hy⟩ := point_isNumber h.1
    exact command_isInstruction (.arcAbsolute hx hy (Wire.int32_isInteger n)
      (chordParam_isChord h.2))
  | edgeWedge r n k c =>
    exact command_isInstruction (.edgeWedge (real_isNumber h.1) (Wire.int32_isInteger n)
      (Wire.int32_isInteger k) (chordParam_isChord h.2))
  | fillWedge r n k c =>
    exact command_isInstruction (.fillWedge (real_isNumber h.1) (Wire.int32_isInteger n)
      (Wire.int32_isInteger k) (chordParam_isChord h.2))
  | edgeRectangle w l =>
    exact command_isInstruction (.edgeRectangle (real_isNumber h.1) (real_isNumber h.2))
  | fillRectangle w l =>
    exact command_isInstruction (.fillRectangle (real_isNumber h.1) (real_isNumber h.2))
  | characterSize w l =>
    exact command_isInstruction (.characterSize (real_isNumber h.1) (real_isNumber h.2))

/-- **The wire format.** Whatever the transform and the arguments are, the statement of a call is a
sequence of instructions, each of them of one of the forms. -/
theorem compose_wire (t : Transform) (p : Primitive) (st : Statement) (h : p.compose t = .ok st) :
    ∃ is : List (List Char), (∀ i ∈ is, Wire.IsInstruction i) ∧ st.text.toList = is.flatten := by
  obtain ⟨ha, rfl⟩ := p.compose_eq_ok.mp h
  refine ⟨(p.program t).map fun i => i.piece.chars, ?_, ?_⟩
  · refine List.forall_mem_map.mpr ?_
    intro i hi
    exact piece_isInstruction (Primitive.program_sendable ha i hi)
  · rw [Statement.ofInstructions, Statement.ofPieces, String.toList_ofList, List.flatMap_map]
    rfl

/-- A hatched wedge at forty units to one of the drawing. -/
theorem compose_wire_wedge :
    (Primitive.fillWedge ⟨10, -2.5⟩ 3 0 1.5 ⟨some 5, .hatch 0.25 45⟩).compose ⟨40, ⟨0, 0⟩⟩ =
        .ok ⟨"PU;PA400,-100;FT3,10,45;WG60,0,85,5;"⟩ ∧
      ∃ is : List (List Char), (∀ i ∈ is, Wire.IsInstruction i) ∧
        "PU;PA400,-100;FT3,10,45;WG60,0,85,5;".toList = is.flatten := by
  have h : ((Primitive.fillWedge ⟨10, -2.5⟩ 3 0 1.5 ⟨some 5, .hatch 0.25 45⟩).compose
      ⟨40, ⟨0, 0⟩⟩).toOption = some ⟨"PU;PA400,-100;FT3,10,45;WG60,0,85,5;"⟩ := by decide +kernel
  rcases hc : (Primitive.fillWedge ⟨10, -2.5⟩ 3 0 1.5 ⟨some 5, .hatch 0.25 45⟩).compose
    ⟨40, ⟨0, 0⟩⟩ with cause | st
  · rw [hc] at h
    exact nomatch h
  · rw [hc] at h
    obtain rfl := Option.some.inj h
    exact ⟨rfl, compose_wire _ _ _ hc⟩

end HpGl
