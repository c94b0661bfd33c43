import HpGl.Proofs.Acceptance
import HpGl.Proofs.Double

/-!
# What an accepted call sends

The conditions of a call bound every parameter of every instruction that it becomes. The size of the
characters of a label is the one number that is not checked again after it was computed; its factors
are too small for it to overflow.

* `Instruction.Sendable`: the range of each parameter.
* `labelCell_isFinite`: the size of the characters of a label.
* **`program_sendable`**: accepted calls send nothing else.
-/

namespace HpGl

/-- A chord angle among the parameters. -/
def ChordSendable (c : Option Float) : Prop := ∀ r ∈ c, Positive r

/-- **The range of the parameters of an instruction.** -/
def Instruction.Sendable : Instruction → Prop
  | selectPen slot => slot ≤ 6
  | penUp target => ∀ p ∈ target, p.isFinite = true
  | penDown path => ∀ p ∈ path, p.isFinite = true
  | plotAbsolute p => p.isFinite = true
  | lineType pattern => ∀ l ∈ pattern, l.1 ≤ 6 ∧ ∀ s ∈ l.2, s.isFinite = true
  | fillType model none => model = 1 ∨ model = 2
  | fillType model (some (spacing, angle)) =>
    (model = 3 ∨ model = 4) ∧ spacing.isFinite = true ∧ angle.isFinite = true
  | velocity v => Positive v
  | circle r c => r.isFinite = true ∧ ChordSendable c
  | arcAbsolute p _ c => p.isFinite = true ∧ ChordSendable c
  | edgeWedge r _ _ c | fillWedge r _ _ c => r.isFinite = true ∧ ChordSendable c
  | edgeRectangle w h | fillRectangle w h | characterSize w h =>
    w.isFinite = true ∧ h.isFinite = true
  | label text => labelTerminator ∉ text.toList
  | reset | rotate _ | openPolygon | closePolygon | edgePolygon | fillPolygon | standardSet => True

section LabelCell

open Binary

theorem exponentField_width : exponentField 0.0264 ≤ 1017 := by decide +kernel

theorem exponentField_height : exponentField 1.32 ≤ 1023 := by decide +kernel

/-- **The size of the characters of a label is finite**, although it is not checked. -/
theorem labelCell_isFinite {size : Float} (h : size.isFinite = true) :
    (Primitive.labelCell size).1.isFinite = true ∧
      (Primitive.labelCell size).2.isFinite = true := by
  have hw : exponentField (size * 0.0264) ≤ 2042 :=
    exponentField_mul_le (Nat.le_of_lt_succ (isFinite_iff.mp h)) exponentField_width
      (by decide) (by decide) (by decide) (by decide) (by decide) (by decide) (by decide)
  have hh : exponentField (size * 0.0264 * 1.32) ≤ 2044 :=
    exponentField_mul_le hw exponentField_height
      (by decide) (by decide) (by decide) (by decide) (by decide) (by decide) (by decide)
  exact ⟨isFinite_iff.mpr (Nat.lt_of_le_of_lt hw (by decide)),
    isFinite_iff.mpr (Nat.lt_of_le_of_lt hh (by decide))⟩

end LabelCell

theorem penUp_sendable : (Instruction.penUp none).Sendable := nofun

theorem penDown_sendable : (Instruction.penDown []).Sendable := nofun

theorem fill_sendable {t : Transform} {f : Fill} (h : t.Fills f) : (t.fill f).Sendable := by
  cases f with
  | solid => exact .inl rfl
  | solidUnidirectional => exact .inr rfl
  | hatch s a => exact ⟨.inl rfl, (h (s, a) rfl).1.2, (h (s, a) rfl).2⟩
  | crossHatch s a => exact ⟨.inr rfl, (h (s, a) rfl).1.2, (h (s, a) rfl).2⟩

theorem lineType_sendable {l : LineType} (h : l.Valid) : l.instruction.Sendable := by
  intro _ e
  obtain rfl := Option.some.inj e
  exact h

namespace Primitive

variable {t : Transform}

theorem styleProgram_sendable {s : Style} (hl : ∀ l ∈ s.lineType, l.Valid)
    (hf : ∀ f ∈ s.fill, t.Fills f) : ∀ i ∈ styleProgram t s, i.Sendable := by
  rcases s with ⟨pen, line, fill⟩
  simp only [styleProgram, List.forall_mem_append, Option.mem_toList, Option.map_eq_some_iff]
  refine ⟨⟨?_, ?_⟩, ?_⟩
  · rintro _ ⟨p, -, rfl⟩
    exact p.slot_le
  · rintro _ ⟨l, hl', rfl⟩
    exact lineType_sendable (hl l hl')
  · rintro _ ⟨f, hf', rfl⟩
    exact fill_sendable (hf f hf')

theorem recordPolygon_sendable {body : List Instruction} {p : Point} {ps : List Point}
    (hbody : ∀ i ∈ body, i.Sendable) (hps : ∀ q ∈ p :: ps, q.isFinite = true) :
    ∀ i ∈ recordPolygon body p ps, i.Sendable := by
  have hring : ∀ q ∈ p :: ps ++ [p], q.isFinite = true :=
    List.forall_mem_append.mpr ⟨hps, by simpa using hps p List.mem_cons_self⟩
  refine List.forall_mem_append.mpr ⟨List.forall_mem_append.mpr ⟨?_, hbody⟩, ?_⟩
  · simp only [List.forall_mem_cons]
    exact ⟨penUp_sendable, hps p List.mem_cons_self, trivial, nofun⟩
  · exact List.forall_mem_map.mpr hring

theorem outlineProgram_sendable {fill : Option Fill} {ps : List Point}
    (hps : ∀ p ∈ ps, p.isFinite = true) (hf : ∀ f ∈ fill, t.Fills f) :
    ∀ i ∈ outlineProgram t fill ps, i.Sendable := by
  cases ps with
  | nil => exact nofun
  | cons p ps =>
    cases fill with
    | none =>
      refine List.forall_mem_append.mpr ⟨recordPolygon_sendable ?_ hps, ?_⟩
      · simp only [List.forall_mem_cons]
        exact ⟨penDown_sendable, nofun⟩
      · simp only [List.forall_mem_cons]
        exact ⟨penUp_sendable, trivial, trivial, nofun⟩
    | some f =>
      refine List.forall_mem_append.mpr ⟨recordPolygon_sendable nofun hps, ?_⟩
      simp only [List.forall_mem_cons]
      exact ⟨trivial, fill_sendable (hf f rfl), trivial, nofun⟩

theorem points_isFinite {ps : List Point} (h : ∀ p ∈ ps, t.Places p) :
    ∀ p ∈ ps.map t.point, p.isFinite = true := by
  refine List.forall_mem_map.mpr ?_
  intro p hp
  exact (h p hp).2

theorem penUpAt_sendable {p : Point} (h : p.isFinite = true) :
    (Instruction.penUp (some p)).Sendable := by
  intro q hq
  obtain rfl := Option.some.inj hq
  exact h

/-- **Accepted calls send nothing else.** -/
theorem program_sendable {p : Primitive} (h : p.Accepted t) : ∀ i ∈ p.program t, i.Sendable := by
  cases p with
  | applyStyle s => exact styleProgram_sendable h.1 h.2
  | polygon outline ps =>
    have hps := points_isFinite h.2
    rw [program]
    exact outlineProgram_sendable hps nofun
  | fillPolygon outline ps o =>
    have hps := points_isFinite h.1.2
    rw [program]
    refine outlineProgram_sendable hps ?_
    intro f hf
    obtain rfl := Option.some.inj hf
    exact h.2
  | lines ps =>
    have hps := points_isFinite h.2
    simp only [program, List.forall_mem_cons]
    exact ⟨fun p hp => hps p (List.mem_of_mem_head? hp),
      fun p hp => hps p (List.mem_of_mem_tail hp), penUp_sendable, nofun⟩
  | lineType l =>
    cases l with
    | none => exact List.forall_mem_singleton.mpr nofun
    | some l => exact List.forall_mem_singleton.mpr (lineType_sendable h)
  | selectPen slot => exact List.forall_mem_singleton.mpr (Int.toNat_le.mpr h.2)
  | reset | rotate n => exact List.forall_mem_singleton.mpr trivial
  | penSpeed v => exact List.forall_mem_singleton.mpr h
  | fillType f => exact List.forall_mem_singleton.mpr (fill_sendable h)
  | sendTo p => exact List.forall_mem_singleton.mpr (penUpAt_sendable h.2)
  | park =>
    simp only [program, List.forall_mem_cons]
    exact ⟨penUp_sendable, Nat.zero_le 6, nofun⟩
  | drawTo p =>
    simp only [program, List.forall_mem_cons]
    exact ⟨penDown_sendable, h.2, nofun⟩
  | line a b =>
    obtain ⟨⟨-, ha⟩, ⟨-, hb⟩⟩ := h
    simp only [program, List.forall_mem_cons]
    exact ⟨penUpAt_sendable ha, List.forall_mem_singleton.mpr hb, penUp_sendable, nofun⟩
  | circle c d o =>
    obtain ⟨⟨-, hd⟩, ho, ⟨-, hc⟩⟩ := h
    simp only [program, List.forall_mem_cons]
    exact ⟨penUp_sendable, hc, ⟨hd, ho⟩, nofun⟩
  | fillCircle c d o =>
    obtain ⟨⟨-, hd⟩, ho, ⟨-, hc⟩, hf⟩ := h
    simp only [program, List.forall_mem_cons]
    exact ⟨penUp_sendable, hc, fill_sendable hf, ⟨hd, ho⟩, nofun⟩
  | wedge c d start sweep o =>
    obtain ⟨-, ⟨-, hd⟩, ho, ⟨-, hc⟩⟩ := h
    simp only [program, List.forall_mem_cons]
    exact ⟨penUp_sendable, hc, ⟨hd, ho⟩, nofun⟩
  | fillWedge c d start sweep o =>
    obtain ⟨-, ⟨-, hd⟩, ho, ⟨-, hc⟩, hf⟩ := h
    simp only [program, List.forall_mem_cons]
    exact ⟨penUp_sendable, hc, fill_sendable hf, ⟨hd, ho⟩, nofun⟩
  | arc c size start stop o =>
    obtain ⟨-, -, -, ⟨-, hc⟩, ⟨-, hs⟩, ho⟩ := h
    simp only [program, List.forall_mem_cons]
    exact ⟨penUp_sendable, hs, penDown_sendable, ⟨hc, ho⟩, penUp_sendable, nofun⟩
  | rectangle p width height =>
    obtain ⟨⟨-, hw⟩, ⟨-, hh⟩, ⟨-, hp⟩⟩ := h
    simp only [program, List.forall_mem_cons]
    exact ⟨penUp_sendable, hp, penDown_sendable, ⟨hw, hh⟩, penUp_sendable, nofun⟩
  | fillRectangle p width height o =>
    obtain ⟨⟨-, hw⟩, ⟨-, hh⟩, hf, ⟨-, hp⟩⟩ := h
    simp only [program, List.forall_mem_cons]
    exact ⟨penUp_sendable, hp, fill_sendable hf, penDown_sendable, ⟨hw, hh⟩, penUp_sendable, nofun⟩
  | label text p size =>
    obtain ⟨htext, hsize, ⟨-, hp⟩⟩ := h
    simp only [program, List.forall_mem_cons]
    exact ⟨penUp_sendable, hp, trivial, labelCell_isFinite hsize, htext, nofun⟩

end Primitive

end HpGl
