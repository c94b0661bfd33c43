import HpGl.Primitive

/-!
# Which calls are accepted

A call is accepted exactly when each of its arguments is valid by itself. What it then becomes
needs no checks any more.

* `Transform.Places`, `Transform.Spans`, `Transform.Fills`: positions, lengths and fills that stay
  finite on the device.
* `ChordValid`, `LineType.Valid`: chord angles and line patterns.
* `Primitive.Accepted`, `Primitive.program`: the conditions of a call, and its instructions.
* **`instructions_eq_ok`**, `compose_eq_ok`: these are the calls that are accepted, and what they
  become.
* **`compose_ok_iff`**: a statement is composed exactly under these conditions.
-/

namespace HpGl

/-! ## Checks in sequence -/

namespace Checked

variable {α β : Type}

theorem ok_eq_ok {a b : α} : (.ok a : Checked α) = .ok b ↔ b = a := by
  rw [Except.ok.injEq, eq_comm]

theorem pure_eq_ok {a b : α} : (pure a : Checked α) = .ok b ↔ b = a :=
  ok_eq_ok

theorem ite_eq_ok {P : Prop} [Decidable P] {a b : α} {cause : Refusal} :
    (if P then .ok a else .error cause : Checked α) = .ok b ↔ P ∧ b = a := by
  by_cases h : P
  · rw [if_pos h, ok_eq_ok, and_iff_right h]
  · simp [h]

theorem bind_eq_ok {x : Checked α} {P : Prop} {v : α} (h : ∀ a, x = .ok a ↔ P ∧ a = v)
    {f : α → Checked β} {b : β} : (do f (← x)) = .ok b ↔ P ∧ f v = .ok b := by
  rcases hx : x with cause | a
  · refine iff_of_false (fun e => nomatch e) (fun e => ?_)
    exact nomatch hx.symm.trans ((h v).mpr ⟨e.1, rfl⟩)
  · obtain ⟨hP, rfl⟩ := (h a).mp hx
    exact (and_iff_right hP).symm

theorem discard_eq_ok {x : Checked α} {P : Prop} {v : α} (h : ∀ a, x = .ok a ↔ P ∧ a = v)
    (u : Unit) : discard x = .ok u ↔ P ∧ u = () := by
  rcases hx : x with cause | a
  · refine iff_of_false (fun e => nomatch e) (fun e => ?_)
    exact nomatch hx.symm.trans ((h v).mpr ⟨e.1, rfl⟩)
  · exact iff_of_true rfl ⟨((h a).mp hx).1, rfl⟩

theorem mapM_eq_ok {f : α → Checked β} {P : α → Prop} {g : α → β}
    (h : ∀ a b, f a = .ok b ↔ P a ∧ b = g a) (as : List α) (bs : List β) :
    as.mapM f = .ok bs ↔ (∀ a ∈ as, P a) ∧ bs = as.map g := by
  induction as generalizing bs with
  | nil => simp [pure_eq_ok]
  | cons a as ih =>
    rw [List.mapM_cons, bind_eq_ok (h a), bind_eq_ok ih, pure_eq_ok, List.forall_mem_cons,
      List.map_cons, and_assoc]

theorem option_mapM_eq_ok {f : α → Checked β} {P : α → Prop} {g : α → β}
    (h : ∀ a b, f a = .ok b ↔ P a ∧ b = g a) (o : Option α) (r : Option β) :
    o.mapM f = .ok r ↔ (∀ a ∈ o, P a) ∧ r = o.map g := by
  cases o with
  | none => simp [pure_eq_ok]
  | some a =>
    rw [Option.mapM_some, map_eq_pure_bind, bind_eq_ok (h a), pure_eq_ok]
    simp

end Checked

open Checked

/-! ## Single arguments -/

/-- A number that is positive and finite. -/
def Positive (v : Float) : Prop := v.isFinite = true ∧ 0 < v

instance (v : Float) : Decidable (Positive v) :=
  inferInstanceAs (Decidable (v.isFinite = true ∧ 0 < v))

/-- A chord angle is positive and finite, if it is given. -/
def ChordValid (o : Options) : Prop := ∀ r ∈ o.resolution, Positive r

instance (o : Options) : Decidable (ChordValid o) :=
  inferInstanceAs (Decidable (∀ r ∈ o.resolution, Positive r))

/-- A pattern in `0..6` with a finite length, if it has one. -/
def LineType.Valid (l : LineType) : Prop :=
  l.pattern.toNat ≤ 6 ∧ ∀ s ∈ l.spacePercent, s.isFinite = true

instance (l : LineType) : Decidable l.Valid :=
  inferInstanceAs (Decidable (l.pattern.toNat ≤ 6 ∧ ∀ s ∈ l.spacePercent, s.isFinite = true))

namespace Transform

variable (t : Transform)

/-- A position that is finite in the drawing and on the device. -/
def Places (p : Point) : Prop := p.isFinite = true ∧ (t.point p).isFinite = true

instance (p : Point) : Decidable (t.Places p) :=
  inferInstanceAs (Decidable (p.isFinite = true ∧ (t.point p).isFinite = true))

/-- A length that is finite in the drawing and on the device. -/
def Spans (v : Float) : Prop := v.isFinite = true ∧ (t.length v).isFinite = true

instance (v : Float) : Decidable (t.Spans v) :=
  inferInstanceAs (Decidable (v.isFinite = true ∧ (t.length v).isFinite = true))

/-- A fill that does not hatch, or whose spacing and angle are fit for the device. -/
def Fills (f : Fill) : Prop := ∀ h ∈ f.hatching, t.Spans h.1 ∧ h.2.isFinite = true

instance (f : Fill) : Decidable (t.Fills f) :=
  inferInstanceAs (Decidable (∀ h ∈ f.hatching, t.Spans h.1 ∧ h.2.isFinite = true))

end Transform

theorem finite_eq_ok {v : Float} {what : Quantity} (w : Float) :
    finite v what = .ok w ↔ v.isFinite = true ∧ w = v :=
  ite_eq_ok

theorem finitePoint_eq_ok {p : Point} {what : Quantity} (q : Point) :
    finitePoint p what = .ok q ↔ p.isFinite = true ∧ q = p :=
  ite_eq_ok

theorem positive_iff {v : Float} : (v.isFinite && decide (0 < v)) = true ↔ Positive v := by
  rw [Bool.and_eq_true, decide_eq_true_eq, Positive]

theorem chord_eq_ok {o : Options} (c : Option Float) :
    Primitive.chord o = .ok c ↔ ChordValid o ∧ c = o.resolution := by
  unfold Primitive.chord ChordValid
  rcases o.resolution with _ | r
  · rw [ok_eq_ok]
    simp
  · simp only [positive_iff, ite_eq_ok, Option.mem_some_iff, forall_eq']

theorem wedgeAngles_eq_ok {start sweep : Float} (a : Int32 × Int32) :
    Primitive.wedgeAngles start sweep = .ok a ↔ (start.isFinite = true ∧ sweep.isFinite = true) ∧
      a = (wholeDegrees (degrees start), wholeDegrees (degrees sweep)) := by
  rw [Primitive.wedgeAngles, bind_eq_ok finite_eq_ok, bind_eq_ok finite_eq_ok, pure_eq_ok,
    and_assoc]

theorem validate_eq_ok {l : LineType} (u : Unit) : l.validate = .ok u ↔ l.Valid ∧ u = () := by
  unfold LineType.validate LineType.Valid
  by_cases h : 6 < l.pattern.toNat
  · rw [if_pos h]
    exact iff_of_false (fun e => nomatch e) (fun v => absurd v.1.1 (Nat.not_le.mpr h))
  · rw [if_neg h]
    rcases l.spacePercent with _ | s
    · simp [Nat.not_lt.mp h]
    · simp [Nat.not_lt.mp h]

theorem Pen.ofSlot_eq_ok {n : Int32} {p : Pen} : Pen.ofSlot n = .ok p ↔ n.toInt = p.slot := by
  have hle := p.slot_le
  simp only [Pen.ofSlot]
  split
  · rename_i h
    rw [Except.ok.injEq, Pen.mk.injEq]
    omega
  · rename_i h
    refine iff_of_false nofun ?_
    omega

theorem LineType.ofPattern_eq_ok {n : Int32} {space : Option Float} {l : LineType} :
    LineType.ofPattern n space = .ok l ↔
      n.toInt = l.pattern.toNat ∧ l.pattern.toNat ≤ 6 ∧ l.spacePercent = space := by
  obtain ⟨pattern, spacePercent⟩ := l
  simp only [LineType.ofPattern]
  split
  · rename_i h
    have hlt : n.toInt.toNat < 256 := by omega
    rw [Except.ok.injEq, LineType.mk.injEq, ← UInt8.toNat_inj, UInt8.toNat_ofNat_of_lt' hlt]
    constructor
    · rintro ⟨hn, rfl⟩
      exact ⟨by omega, by omega, rfl⟩
    · rintro ⟨hn, -, rfl⟩
      exact ⟨by omega, rfl⟩
  · rename_i h
    refine iff_of_false nofun ?_
    rintro ⟨hn, hle, -⟩
    omega

namespace Transform

variable {t : Transform}

theorem device_eq_ok {p : Point} {what : Quantity} (q : Point) :
    t.device p what = .ok q ↔ t.Places p ∧ q = t.point p := by
  rw [device, bind_eq_ok finitePoint_eq_ok, finitePoint_eq_ok, Places, and_assoc]

theorem deviceLength_eq_ok {v : Float} {what : Quantity} (w : Float) :
    t.deviceLength v what = .ok w ↔ t.Spans v ∧ w = t.length v := by
  rw [deviceLength, bind_eq_ok finite_eq_ok, finite_eq_ok, Spans, and_assoc]

theorem moveTo_eq_ok {p : Point} {what : Quantity} (is : List Instruction) :
    t.moveTo p what = .ok is ↔ t.Places p ∧ is = [.penUp none, .plotAbsolute (t.point p)] := by
  rw [moveTo, bind_eq_ok device_eq_ok, pure_eq_ok]

theorem vertices_eq_ok {p : Point} {ps : List Point} {what : Outline} (v : Point × List Point) :
    t.vertices (p :: ps) what = .ok v ↔
      (∀ q ∈ p :: ps, t.Places q) ∧ v = (t.point p, ps.map t.point) := by
  rw [vertices, bind_eq_ok device_eq_ok, bind_eq_ok (mapM_eq_ok (fun _ => device_eq_ok) ps),
    pure_eq_ok, List.forall_mem_cons, and_assoc]

end Transform

/-! ## What an accepted call becomes -/

/-- The instruction that sets a fill. -/
def Transform.fill (t : Transform) (f : Fill) : Instruction :=
  .fillType f.model (f.hatching.map fun h => (t.length h.1, h.2))

/-- The instruction that sets a line pattern. -/
def LineType.instruction (l : LineType) : Instruction :=
  .lineType (some (l.pattern.toNat, l.spacePercent))

theorem fillType_eq_ok {t : Transform} {f : Fill} (i : Instruction) :
    t.fillType f = .ok i ↔ t.Fills f ∧ i = t.fill f := by
  unfold Transform.fillType Transform.Fills Transform.fill
  rcases f.hatching with _ | ⟨spacing, angle⟩
  · rw [ok_eq_ok]
    simp
  · simp only [Option.mem_some_iff, forall_eq']
    rw [bind_eq_ok Transform.deviceLength_eq_ok, bind_eq_ok finite_eq_ok, pure_eq_ok, and_assoc]
    rfl

theorem lineTypeInstructions_eq_ok {l : LineType} (is : List Instruction) :
    Primitive.lineTypeInstructions l = .ok is ↔ l.Valid ∧ is = [l.instruction] := by
  rw [Primitive.lineTypeInstructions, bind_eq_ok validate_eq_ok, pure_eq_ok]
  rfl

namespace Primitive

variable (t : Transform)

/-- The instructions of a style. -/
def styleProgram (s : Style) : List Instruction :=
  (s.pen.map fun p => .selectPen p.slot).toList ++ (s.lineType.map LineType.instruction).toList ++
    (s.fill.map t.fill).toList

/-- The instructions of an outline that is recorded and drawn, or filled if there is a fill. -/
def outlineProgram (fill : Option Fill) : List Point → List Instruction
  | [] => []
  | p :: ps =>
    match fill with
    | none => recordPolygon [.penDown []] p ps ++ [.penUp none, .closePolygon, .edgePolygon]
    | some f => recordPolygon [] p ps ++ [.closePolygon, t.fill f, .fillPolygon]

/-- **The instructions of an accepted call.** -/
def program : Primitive → List Instruction
  | reset => [.reset]
  | park => [.penUp none, .selectPen 0]
  | selectPen slot => [.selectPen slot.toInt.toNat]
  | lineType none => [.lineType none]
  | lineType (some l) => [l.instruction]
  | rotate n => [.rotate n]
  | penSpeed v => [.velocity v]
  | fillType f => [t.fill f]
  | applyStyle s => styleProgram t s
  | sendTo p => [.penUp (some (t.point p))]
  | line a b => [.penUp (some (t.point a)), .penDown [t.point b], .penUp none]
  | drawTo p => [.penDown [], .plotAbsolute (t.point p)]
  | lines ps =>
    [.penUp (ps.map t.point).head?, .penDown (ps.map t.point).tail, .penUp none]
  | circle c d o =>
    [.penUp none, .plotAbsolute (t.point c), .circle (t.length (d / 2)) o.resolution]
  | fillCircle c d o =>
    [.penUp none, .plotAbsolute (t.point c), t.fill o.fill,
      .fillWedge (t.length (d / 2)) 0 360 o.resolution]
  | wedge c d start sweep o =>
    [.penUp none, .plotAbsolute (t.point c),
      .edgeWedge (t.length (d / 2)) (wholeDegrees (degrees start)) (wholeDegrees (degrees sweep))
        o.resolution]
  | fillWedge c d start sweep o =>
    [.penUp none, .plotAbsolute (t.point c), t.fill o.fill,
      .fillWedge (t.length (d / 2)) (wholeDegrees (degrees start)) (wholeDegrees (degrees sweep))
        o.resolution]
  | arc c size start stop o =>
    [.penUp none, .plotAbsolute (t.point (arcStart c size start)), .penDown [],
      .arcAbsolute (t.point c) (arcSweep start stop) o.resolution, .penUp none]
  | rectangle p w h =>
    [.penUp none, .plotAbsolute (t.point p), .penDown [],
      .edgeRectangle (t.length w) (t.length h), .penUp none]
  | fillRectangle p w h o =>
    [.penUp none, .plotAbsolute (t.point p), t.fill o.fill, .penDown [],
      .fillRectangle (t.length w) (t.length h), .penUp none]
  | polygon _ ps => outlineProgram t none (ps.map t.point)
  | fillPolygon _ ps o => outlineProgram t (some o.fill) (ps.map t.point)
  | label text p size =>
    [.penUp none, .plotAbsolute (t.point p), .standardSet,
      .characterSize (labelCell size).1 (labelCell size).2, .label text]

/-- **The conditions of a call.** -/
def Accepted : Primitive → Prop
  | selectPen slot => 0 ≤ slot.toInt ∧ slot.toInt ≤ 6
  | lineType (some l) => l.Valid
  | penSpeed v => Positive v
  | fillType f => t.Fills f
  | applyStyle s => (∀ l ∈ s.lineType, l.Valid) ∧ ∀ f ∈ s.fill, t.Fills f
  | sendTo p => t.Places p
  | line a b => t.Places a ∧ t.Places b
  | drawTo p => t.Places p
  | lines ps => ps ≠ [] ∧ ∀ p ∈ ps, t.Places p
  | circle c d o => t.Spans (d / 2) ∧ ChordValid o ∧ t.Places c
  | fillCircle c d o => t.Spans (d / 2) ∧ ChordValid o ∧ t.Places c ∧ t.Fills o.fill
  | wedge c d start sweep o =>
    (start.isFinite = true ∧ sweep.isFinite = true) ∧ t.Spans (d / 2) ∧ ChordValid o ∧ t.Places c
  | fillWedge c d start sweep o =>
    (start.isFinite = true ∧ sweep.isFinite = true) ∧ t.Spans (d / 2) ∧ ChordValid o ∧
      t.Places c ∧ t.Fills o.fill
  | arc c size start stop o =>
    size.isFinite = true ∧ start.isFinite = true ∧ stop.isFinite = true ∧ t.Places c ∧
      t.Places (arcStart c size start) ∧ ChordValid o
  | rectangle p w h => t.Spans w ∧ t.Spans h ∧ t.Places p
  | fillRectangle p w h o => t.Spans w ∧ t.Spans h ∧ t.Fills o.fill ∧ t.Places p
  | polygon _ ps => ps ≠ [] ∧ ∀ p ∈ ps, t.Places p
  | fillPolygon _ ps o => (ps ≠ [] ∧ ∀ p ∈ ps, t.Places p) ∧ t.Fills o.fill
  | label text p size => labelTerminator ∉ text.toList ∧ size.isFinite = true ∧ t.Places p
  | reset | park | lineType none | rotate _ => True

instance (p : Primitive) : Decidable (p.Accepted t) :=
  match p with
  | reset | park | lineType none | rotate _ => .isTrue trivial
  | lineType (some l) => inferInstanceAs (Decidable l.Valid)
  | penSpeed v => inferInstanceAs (Decidable (Positive v))
  | fillType f => inferInstanceAs (Decidable (t.Fills f))
  | sendTo p | drawTo p => inferInstanceAs (Decidable (t.Places p))
  | selectPen _ | applyStyle _ | line _ _ | lines _ | circle .. | fillCircle .. | wedge ..
  | fillWedge .. | arc .. | rectangle .. | fillRectangle .. | polygon .. | fillPolygon ..
  | label .. => instDecidableAnd

variable {t : Transform} {is : List Instruction}

theorem selectPenInstructions_eq_ok {slot : Int32} :
    selectPenInstructions slot = .ok is ↔
      (0 ≤ slot.toInt ∧ slot.toInt ≤ 6) ∧ is = [.selectPen slot.toInt.toNat] := by
  simp only [selectPenInstructions, Pen.ofSlot]
  split
  · rename_i h
    exact ok_eq_ok.trans (and_iff_right h).symm
  · rename_i h
    exact iff_of_false (fun e => nomatch e) (fun e => h e.1)

theorem styleInstructions_eq_ok {s : Style} :
    styleInstructions t s = .ok is ↔
      ((∀ l ∈ s.lineType, l.Valid) ∧ ∀ f ∈ s.fill, t.Fills f) ∧ is = styleProgram t s := by
  have hf := option_mapM_eq_ok (fun f => fillType_eq_ok (t := t) (f := f)) s.fill
  rcases s with ⟨pen, _ | l, fill⟩
  · simp only [styleInstructions]
    rw [pure_bind, bind_eq_ok hf, pure_eq_ok]
    simp [styleProgram]
  · simp only [styleInstructions]
    rw [bind_eq_ok lineTypeInstructions_eq_ok, bind_eq_ok hf, pure_eq_ok, ← and_assoc]
    simp [styleProgram]

theorem wedgeInstructions_eq_ok {c : Point} {d : Float} {angles : Int32 × Int32} {o : Options} :
    wedgeInstructions t none c d angles o = .ok is ↔
      (t.Spans (d / 2) ∧ ChordValid o ∧ t.Places c) ∧
        is = [.penUp none, .plotAbsolute (t.point c),
          .edgeWedge (t.length (d / 2)) angles.1 angles.2 o.resolution] := by
  rw [wedgeInstructions, Transform.radius, bind_eq_ok Transform.deviceLength_eq_ok,
    bind_eq_ok chord_eq_ok, bind_eq_ok Transform.moveTo_eq_ok, pure_eq_ok]
  simp only [and_assoc]
  rfl

theorem fillWedgeInstructions_eq_ok {f : Fill} {c : Point} {d : Float} {angles : Int32 × Int32}
    {o : Options} :
    wedgeInstructions t (some f) c d angles o = .ok is ↔
      (t.Spans (d / 2) ∧ ChordValid o ∧ t.Places c ∧ t.Fills f) ∧
        is = [.penUp none, .plotAbsolute (t.point c), t.fill f,
          .fillWedge (t.length (d / 2)) angles.1 angles.2 o.resolution] := by
  rw [wedgeInstructions, Transform.radius, bind_eq_ok Transform.deviceLength_eq_ok,
    bind_eq_ok chord_eq_ok, bind_eq_ok Transform.moveTo_eq_ok]
  simp only
  rw [bind_eq_ok fillType_eq_ok, pure_eq_ok]
  simp only [and_assoc]
  rfl

theorem arcInstructions_eq_ok {c : Point} {size start stop : Float} {o : Options} :
    arcInstructions t c size start stop o = .ok is ↔
      (size.isFinite = true ∧ start.isFinite = true ∧ stop.isFinite = true ∧ t.Places c ∧
        t.Places (arcStart c size start) ∧ ChordValid o) ∧
        is = [.penUp none, .plotAbsolute (t.point (arcStart c size start)), .penDown [],
          .arcAbsolute (t.point c) (arcSweep start stop) o.resolution, .penUp none] := by
  rw [arcInstructions, bind_eq_ok (discard_eq_ok finite_eq_ok),
    bind_eq_ok (discard_eq_ok finite_eq_ok), bind_eq_ok (discard_eq_ok finite_eq_ok),
    bind_eq_ok Transform.device_eq_ok, bind_eq_ok Transform.device_eq_ok, bind_eq_ok chord_eq_ok,
    pure_eq_ok]
  simp only [and_assoc]

/-- **The calls that are accepted, and what they become.** -/
theorem instructions_eq_ok (p : Primitive) :
    p.instructions t = .ok is ↔ p.Accepted t ∧ is = p.program t := by
  cases p with
  | reset | park | rotate n => exact ok_eq_ok.trans (and_iff_right trivial).symm
  | selectPen slot => exact selectPenInstructions_eq_ok
  | lineType l =>
    cases l with
    | none => exact ok_eq_ok.trans (and_iff_right trivial).symm
    | some l => exact lineTypeInstructions_eq_ok is
  | penSpeed v =>
    rw [instructions, ite_eq_ok, positive_iff]
    rfl
  | fillType f =>
    rw [instructions, bind_eq_ok fillType_eq_ok, pure_eq_ok]
    rfl
  | applyStyle s => exact styleInstructions_eq_ok
  | sendTo p | drawTo p =>
    rw [instructions, bind_eq_ok Transform.device_eq_ok, pure_eq_ok]
    rfl
  | line a b =>
    rw [instructions, bind_eq_ok Transform.device_eq_ok, bind_eq_ok Transform.device_eq_ok,
      pure_eq_ok, ← and_assoc]
    rfl
  | lines ps =>
    cases ps with
    | nil => exact iff_of_false (fun e => nomatch e) (fun e => e.1.1 rfl)
    | cons p ps =>
      rw [instructions, bind_eq_ok Transform.vertices_eq_ok, pure_eq_ok]
      exact and_congr_left fun _ => (and_iff_right (List.cons_ne_nil p ps)).symm
  | circle c d o =>
    rw [instructions, Transform.radius, bind_eq_ok Transform.deviceLength_eq_ok,
      bind_eq_ok chord_eq_ok, bind_eq_ok Transform.moveTo_eq_ok, pure_eq_ok]
    simp only [Accepted, and_assoc]
    rfl
  | fillCircle c d o =>
    rw [instructions, fillWedgeInstructions_eq_ok]
    rfl
  | wedge c d start sweep o =>
    rw [instructions, bind_eq_ok wedgeAngles_eq_ok, wedgeInstructions_eq_ok, ← and_assoc]
    rfl
  | fillWedge c d start sweep o =>
    rw [instructions, bind_eq_ok wedgeAngles_eq_ok, fillWedgeInstructions_eq_ok, ← and_assoc]
    rfl
  | arc c size start stop o => exact arcInstructions_eq_ok
  | rectangle p w h =>
    rw [instructions, bind_eq_ok Transform.deviceLength_eq_ok,
      bind_eq_ok Transform.deviceLength_eq_ok, bind_eq_ok Transform.moveTo_eq_ok, pure_eq_ok]
    simp only [Accepted, and_assoc]
    rfl
  | fillRectangle p w h o =>
    rw [instructions, bind_eq_ok Transform.deviceLength_eq_ok,
      bind_eq_ok Transform.deviceLength_eq_ok, bind_eq_ok fillType_eq_ok,
      bind_eq_ok Transform.moveTo_eq_ok, pure_eq_ok]
    simp only [Accepted, and_assoc]
    rfl
  | polygon outline ps =>
    cases ps with
    | nil => exact iff_of_false (fun e => nomatch e) (fun e => e.1.1 rfl)
    | cons p ps =>
      rw [instructions, bind_eq_ok Transform.vertices_eq_ok, pure_eq_ok]
      exact and_congr_left fun _ => (and_iff_right (List.cons_ne_nil p ps)).symm
  | fillPolygon outline ps o =>
    cases ps with
    | nil => exact iff_of_false (fun e => nomatch e) (fun e => e.1.1.1 rfl)
    | cons p ps =>
      rw [instructions, bind_eq_ok Transform.vertices_eq_ok, bind_eq_ok fillType_eq_ok, pure_eq_ok,
        ← and_assoc]
      exact and_congr_left fun _ =>
        and_congr_left fun _ => (and_iff_right (List.cons_ne_nil p ps)).symm
  | label text p size =>
    by_cases h : labelTerminator ∈ text.toList
    · rw [instructions, if_pos h]
      exact iff_of_false (fun e => nomatch e) (fun e => e.1.1 h)
    · rw [instructions, if_neg h]
      simp only
      rw [bind_eq_ok finite_eq_ok, bind_eq_ok Transform.moveTo_eq_ok, pure_eq_ok]
      simp only [Accepted, h, not_false_eq_true, true_and, and_assoc]
      rfl

/-- **The statement of an accepted call.** -/
theorem compose_eq_ok (p : Primitive) {st : Statement} :
    p.compose t = .ok st ↔ p.Accepted t ∧ st = .ofInstructions (p.program t) := by
  rw [compose]
  rcases h : p.instructions t with cause | is
  · refine iff_of_false (fun e => nomatch e) (fun e => ?_)
    exact nomatch h.symm.trans (p.instructions_eq_ok.mpr ⟨e.1, rfl⟩)
  · obtain ⟨ha, rfl⟩ := p.instructions_eq_ok.mp h
    exact ok_eq_ok.trans (and_iff_right ha).symm

/-- **Exact acceptance.** A call composes a statement if its conditions hold, and only then. -/
theorem compose_ok_iff (t : Transform) (p : Primitive) :
    (∃ st, p.compose t = .ok st) ↔ p.Accepted t := by
  constructor
  · rintro ⟨st, h⟩
    exact (p.compose_eq_ok.mp h).1
  · intro h
    exact ⟨_, p.compose_eq_ok.mpr ⟨h, rfl⟩⟩

/-- A position that is finite in the drawing can be too far for the device. -/
example : ¬ (sendTo ⟨1e300, 0⟩).Accepted ⟨1e10, ⟨0, 0⟩⟩ := by decide +kernel

end Primitive

end HpGl
