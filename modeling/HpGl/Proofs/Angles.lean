import HpGl.Proofs.Degrees
import HpGl.Proofs.Scaling

/-!
# Angles on the wire

The angles of wedges and arcs are sent as whole degrees. They are checked in radians only: what they
are in degrees, and the difference of two of them, can be infinite, a NaN, or more than 32 bits
hold, and the call is accepted all the same.

* `Instruction.turns`, `wireTurns`: the whole degrees of curves, in an instruction and in its text;
  `wireTurns_text`.
* `Primitive.angles`: the values that they are made from; `program_turns`.
* **`compose_angles`**: the whole degrees of a statement, and when they are faithful.
* **`compose_angles_unfaithful`**: angles for which another one is sent.
-/

namespace HpGl

/-! ## Whole degrees of curves -/

/-- The whole degrees of a curve. -/
def Instruction.turns : Instruction → List Int32
  | arcAbsolute _ n _ => [n]
  | edgeWedge _ a n _ | fillWedge _ a n _ => [a, n]
  | _ => []

/-- The whole degrees of a curve in the text of an instruction: the third parameter of an arc, the
second and the third of a wedge. -/
def wireTurns (cs : List Char) : List (List Char) :=
  let m := mnemonicOf cs
  let ps := parameters (cs.drop 2)
  if m = "AA" then (ps.drop 2).take 1
  else if m = "EW" ∨ m = "WG" then (ps.drop 1).take 2
  else []

theorem wireTurns_instruction {m : String} (hm : m.length = 2) (ps : List Param) :
    wireTurns (Piece.instruction m ps).text =
      if m = "AA" then ((ps.map Param.chars).drop 2).take 1
      else if m = "EW" ∨ m = "WG" then ((ps.map Param.chars).drop 1).take 2
      else [] := by
  simp only [wireTurns, mnemonicOf_instruction hm, parameters_instruction hm]

theorem wireTurns_of_ne {m : String} (hm : m.length = 2)
    (hne : m ≠ "AA" ∧ m ≠ "EW" ∧ m ≠ "WG") (ps : List Param) :
    wireTurns (Piece.instruction m ps).text = [] := by
  rw [wireTurns_instruction hm, if_neg hne.1, if_neg (not_or.mpr hne.2)]

/-- **The whole degrees of an instruction, read from its text.** -/
theorem wireTurns_text (i : Instruction) :
    wireTurns i.text = i.turns.map fun n => integerChars n.toInt := by
  cases i with
  | label text => rfl
  | arcAbsolute p n c => exact (wireTurns_instruction rfl _).trans rfl
  | edgeWedge r a n c | fillWedge r a n c => exact (wireTurns_instruction rfl _).trans rfl
  | penUp target => cases target <;> exact wireTurns_of_ne rfl (by decide) _
  | lineType pattern => rcases pattern with _ | ⟨n, s⟩ <;> exact wireTurns_of_ne rfl (by decide) _
  | fillType m hatching =>
    rcases hatching with _ | ⟨s, a⟩ <;> exact wireTurns_of_ne rfl (by decide) _
  | _ => exact wireTurns_of_ne rfl (by decide) _

namespace Primitive

variable {t : Transform}

/-- The values in degrees that the whole degrees of a call are made from. A filled circle is a whole
turn. -/
def angles : Primitive → List Float
  | fillCircle _ _ _ => [0, 360]
  | wedge _ _ start sweep _ | fillWedge _ _ start sweep _ => [degrees start, degrees sweep]
  | arc _ _ start stop _ => [degrees stop - degrees start]
  | _ => []

theorem moves_turns (ps : List Point) :
    (ps.map Instruction.plotAbsolute).flatMap Instruction.turns = [] := by
  rw [List.flatMap_map]
  exact List.flatMap_eq_nil_iff.mpr fun _ _ => rfl

theorem outlineProgram_turns (t : Transform) (fill : Option Fill) (ps : List Point) :
    (outlineProgram t fill ps).flatMap Instruction.turns = [] := by
  cases ps with
  | nil => rfl
  | cons p ps =>
    cases fill with
    | none =>
      rw [outlineProgram, recordPolygon, List.flatMap_append, List.flatMap_append, moves_turns]
      rfl
    | some f =>
      rw [outlineProgram, recordPolygon, List.flatMap_append, List.flatMap_append, moves_turns]
      rfl

theorem turns_circle : [wholeDegrees 0, wholeDegrees 360] = [0, 360] := by decide +kernel

theorem program_turns (t : Transform) (p : Primitive) :
    (p.program t).flatMap Instruction.turns = p.angles.map wholeDegrees := by
  cases p with
  | lineType l => cases l <;> rfl
  | applyStyle s => rcases s with ⟨_ | pen, _ | l, _ | f⟩ <;> rfl
  | fillCircle c d o => exact turns_circle.symm
  | polygon _ ps => exact outlineProgram_turns t none _
  | fillPolygon _ ps o => exact outlineProgram_turns t (some o.fill) _
  | _ => rfl

end Primitive

/-! ## Statements -/

/-- **Angles on the wire.** The whole degrees that an accepted call sends are those of its angles.
They are faithful for each angle that integers of 32 bits can come close to, and for no other: a NaN
is sent as zero, and anything else as the end of the range on its side. -/
theorem compose_angles (t : Transform) (p : Primitive) {st : Statement}
    (h : p.compose t = .ok st) :
    (Statement.split st.text.toList).flatMap wireTurns =
        p.angles.map (fun x => integerChars (wholeDegrees x).toInt) ∧
      ∀ x ∈ p.angles, (Reachable x → Faithful (wholeDegrees x) x) ∧
        (¬ Reachable x → ¬ Faithful (wholeDegrees x) x ∧ wholeDegrees x =
          if x.isNaN then 0 else if Binary.signBit x then -0x80000000 else 0x7FFFFFFF) := by
  obtain ⟨ha, rfl⟩ := p.compose_eq_ok.mp h
  refine ⟨?_, fun x _ => ⟨(wholeDegrees_faithful_iff x).mpr, fun hx => ⟨?_, ?_⟩⟩⟩
  · rw [Statement.split_ofInstructions (Primitive.program_sendable ha), List.flatMap_map]
    calc (p.program t).flatMap (fun i => wireTurns i.text)
        = ((p.program t).flatMap Instruction.turns).map fun n => integerChars n.toInt := by
          rw [List.map_flatMap]
          exact List.flatMap_congr fun i _ => wireTurns_text i
      _ = p.angles.map fun x => integerChars (wholeDegrees x).toInt := by
          rw [Primitive.program_turns, List.map_map]
          rfl
  · exact mt (wholeDegrees_faithful_iff x).mp hx
  · exact wholeDegrees_of_not_reachable hx

/-- A hatched wedge of one and a half radians. -/
theorem compose_angles_wedge :
    let p := Primitive.fillWedge ⟨10, -2.5⟩ 3 0 1.5 ⟨some 5, .hatch 0.25 45⟩
    p.compose ⟨40, ⟨0, 0⟩⟩ = .ok ⟨"PU;PA400,-100;FT3,10,45;WG60,0,85,5;"⟩ ∧
      Reachable (degrees 1.5) ∧ Faithful (wholeDegrees (degrees 1.5)) (degrees 1.5) := by
  intro p
  have h : p.compose ⟨40, ⟨0, 0⟩⟩ = .ok ⟨"PU;PA400,-100;FT3,10,45;WG60,0,85,5;"⟩ :=
    p.compose_eq_ok.mpr ⟨by decide +kernel, by decide +kernel⟩
  have hangle : Reachable (degrees 1.5) := by
    have hsign : Binary.signBit (degrees 1.5) = false := by decide +kernel
    have hbits : Binary.ofFloat (degrees 1.5) = ⟨false, 6047748076523898, -46⟩ := by decide +kernel
    refine ⟨by decide +kernel, ?_⟩
    rw [Binary.number, hsign, if_neg Bool.false_ne_true, hbits, Binary.value]
    norm_num
  exact ⟨h, hangle, ((compose_angles _ p h).2 _ (by simp [p, Primitive.angles])).1 hangle⟩

/-- **Angles for which another one is sent**: a start that is infinite in degrees, and a sweep of
more degrees than 32 bits hold. -/
theorem compose_angles_unfaithful :
    let p := Primitive.wedge ⟨0, 0⟩ 2 1e308 1e9 ⟨none, .solid⟩
    p.compose ⟨1, ⟨0, 0⟩⟩ = .ok ⟨"PU;PA0,0;EW1,2147483647,2147483647;"⟩ ∧
      (degrees 1e308).isInf = true ∧ 57295779513 < Binary.number (degrees 1e9) ∧
      ∀ x ∈ p.angles, ¬ Faithful (wholeDegrees x) x := by
  intro p
  have hinf : (degrees 1e308).isFinite = false := by decide +kernel
  have hfar : 57295779513 < Binary.number (degrees 1e9) := by
    have hsign : Binary.signBit (degrees 1e9) = false := by decide +kernel
    have hbits : Binary.ofFloat (degrees 1e9) = ⟨false, 7509872412338726, -17⟩ := by decide +kernel
    rw [Binary.number, hsign, if_neg Bool.false_ne_true, hbits, Binary.value]
    norm_num
  refine ⟨p.compose_eq_ok.mpr ⟨by decide +kernel, by decide +kernel⟩, by decide +kernel, hfar, ?_⟩
  simp only [p, Primitive.angles, List.forall_mem_cons]
  refine ⟨fun hx => ?_, fun hx => ?_, List.forall_mem_nil _⟩
  · exact absurd (hinf.symm.trans hx.1) Bool.false_ne_true
  · have hreach := hx.reachable.2.2
    linarith

end HpGl
