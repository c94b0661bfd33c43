import HpGl.Proofs.Selection

/-!
# What the scale and the origin reach

A call has one drawing, in the units of the drawing, and the transform is applied to it number by
number: positions are scaled and moved, lengths are scaled, everything else is sent as it is. So the
statements of one call under two transforms differ in positions and lengths only, and under one
scale in positions only.

* `Role`, `role`: what the parameters of an instruction stand for, by its mnemonic.
* `Primitive.drawing`: a call in the units of the drawing; `Primitive.program_eq_map`.
* `Transform.param`, `Transform.piece`: a transform at each parameter; `piece_instruction`.
* `Alike`: two instructions that differ in positions and lengths only; `alike_piece`.
* `split_compose`: the statement of a call is its drawing, transformed once.
* **`compose_scales`**: the statements of one call under two transforms.
-/

namespace HpGl

/-! ## Roles -/

/-- What a parameter stands for. -/
inductive Role where
  /-- A coordinate, the horizontal ones at the even places. -/
  | position
  | length
  /-- Not a measure of the drawing: an angle, a percentage, a number of its own. -/
  | plain
  deriving DecidableEq

/-- **What the parameters of an instruction stand for**, by its mnemonic. -/
def role (mnemonic : String) (index : ℕ) : Role :=
  match mnemonic with
  | "PU" | "PD" | "PA" => .position
  | "AA" => if index < 2 then .position else .plain
  | "CI" | "EW" | "WG" => if index = 0 then .length else .plain
  | "ER" | "RR" => .length
  | "FT" => if index = 1 then .length else .plain
  | _ => .plain

/-! ## Drawings -/

/-- The instruction that sets a fill, its spacing as it is in the drawing. -/
def Fill.drawing (f : Fill) : Instruction := .fillType f.model f.hatching

namespace Primitive

/-- The outline of a polygon in the drawing, drawn, or filled if there is a fill. -/
def outlineDrawing (fill : Option Fill) : List Point → List Instruction
  | [] => []
  | p :: ps =>
    match fill with
    | none => recordPolygon [.penDown []] p ps ++ [.penUp none, .closePolygon, .edgePolygon]
    | some f => recordPolygon [] p ps ++ [.closePolygon, f.drawing, .fillPolygon]

/-- **A call in the units of the drawing.** -/
def drawing : Primitive → List Instruction
  | reset => [.reset]
  | park => [.penUp none, .selectPen 0]
  | selectPen slot => [.selectPen slot.toInt.toNat]
  | lineType none => [.lineType none]
  | lineType (some l) => [l.instruction]
  | rotate n => [.rotate n]
  | penSpeed v => [.velocity v]
  | fillType f => [f.drawing]
  | applyStyle s =>
    (s.pen.map fun p => .selectPen p.slot).toList ++ (s.lineType.map LineType.instruction).toList ++
      (s.fill.map Fill.drawing).toList
  | sendTo p => [.penUp (some p)]
  | line a b => [.penUp (some a), .penDown [b], .penUp none]
  | drawTo p => [.penDown [], .plotAbsolute p]
  | lines ps => [.penUp ps.head?, .penDown ps.tail, .penUp none]
  | circle c d o => [.penUp none, .plotAbsolute c, .circle (d / 2) o.resolution]
  | fillCircle c d o =>
    [.penUp none, .plotAbsolute c, o.fill.drawing, .fillWedge (d / 2) 0 360 o.resolution]
  | wedge c d start sweep o =>
    [.penUp none, .plotAbsolute c,
      .edgeWedge (d / 2) (wholeDegrees (degrees start)) (wholeDegrees (degrees sweep)) o.resolution]
  | fillWedge c d start sweep o =>
    [.penUp none, .plotAbsolute c, o.fill.drawing,
      .fillWedge (d / 2) (wholeDegrees (degrees start)) (wholeDegrees (degrees sweep)) o.resolution]
  | arc c size start stop o =>
    [.penUp none, .plotAbsolute (arcStart c size start), .penDown [],
      .arcAbsolute c (arcSweep start stop) o.resolution, .penUp none]
  | rectangle p w h =>
    [.penUp none, .plotAbsolute p, .penDown [], .edgeRectangle w h, .penUp none]
  | fillRectangle p w h o =>
    [.penUp none, .plotAbsolute p, o.fill.drawing, .penDown [], .fillRectangle w h, .penUp none]
  | polygon _ ps => outlineDrawing none ps
  | fillPolygon _ ps o => outlineDrawing (some o.fill) ps
  | label text p size =>
    [.penUp none, .plotAbsolute p, .standardSet,
      .characterSize (labelCell size).1 (labelCell size).2, .label text]

end Primitive

/-! ## Transforms -/

namespace Transform

variable (t : Transform)

/-- An instruction of the drawing, on the device. -/
def instruction : Instruction → Instruction
  | .penUp target => .penUp (target.map t.point)
  | .penDown path => .penDown (path.map t.point)
  | .plotAbsolute p => .plotAbsolute (t.point p)
  | .fillType m hatching => .fillType m (hatching.map fun h => (t.length h.1, h.2))
  | .circle r c => .circle (t.length r) c
  | .arcAbsolute p n c => .arcAbsolute (t.point p) n c
  | .edgeWedge r a n c => .edgeWedge (t.length r) a n c
  | .fillWedge r a n c => .fillWedge (t.length r) a n c
  | .edgeRectangle w h => .edgeRectangle (t.length w) (t.length h)
  | .fillRectangle w h => .fillRectangle (t.length w) (t.length h)
  | i => i

/-- **A parameter of the drawing, on the device**: a position is scaled and moved, a length is
scaled, anything else stays as it is. -/
def param (mnemonic : String) (index : ℕ) : Param → Param
  | .integer n => .integer n
  | .real v =>
    .real <| match role mnemonic index with
      | .position => if index % 2 = 0 then t.x v else t.y v
      | .length => t.length v
      | .plain => v

/-- What is written for an instruction of the drawing, on the device. -/
def piece : Piece → Piece
  | .instruction m ps => .instruction m (ps.mapIdx (t.param m))
  | p => p

variable {t} {m : String} {k : ℕ}

theorem param_of_plain (h : role m k = .plain) (p : Param) : t.param m k p = p := by
  cases p with
  | integer n => rfl
  | real v => rw [param, h]

theorem param_of_length {t' : Transform} (hs : t.scale = t'.scale) (h : role m k = .length)
    (p : Param) : t.param m k p = t'.param m k p := by
  cases p with
  | integer n => rfl
  | real v => rw [param, param, h, length, length, hs]

theorem param_penDown (k : ℕ) : t.param "PD" (k + 2) = t.param "PD" k := by
  funext p
  cases p with
  | integer n => rfl
  | real v => simp only [param, role, Nat.add_mod_right]

theorem piece_path (ps : List Point) :
    t.piece (.path "PD" (ps.map fun p => (p.x, p.y))) =
      .path "PD" ((ps.map t.point).map fun p => (p.x, p.y)) := by
  simp only [Piece.path, piece, Piece.instruction.injEq, true_and]
  induction ps with
  | nil => rfl
  | cons p ps ih =>
    simp only [List.map_cons, List.flatMap_cons, List.cons_append, List.nil_append,
      List.mapIdx_cons, Nat.add_assoc, Nat.reduceAdd, param_penDown]
    rw [ih]
    rfl

theorem piece_instruction (i : Instruction) : (t.instruction i).piece = t.piece i.piece := by
  cases i with
  | penUp target => cases target <;> rfl
  | penDown path => exact (piece_path path).symm
  | lineType pattern => rcases pattern with _ | ⟨n, _ | length⟩ <;> rfl
  | fillType m hatching => rcases hatching with _ | ⟨spacing, angle⟩ <;> rfl
  | circle r c => cases c <;> rfl
  | arcAbsolute p n c => cases c <;> rfl
  | edgeWedge r a n c | fillWedge r a n c => cases c <;> rfl
  | _ => rfl

end Transform

namespace Primitive

variable {t : Transform}

theorem recordPolygon_eq_map {body : List Instruction} (h : body.map t.instruction = body)
    (p : Point) (ps : List Point) :
    recordPolygon body (t.point p) (ps.map t.point) =
      (recordPolygon body p ps).map t.instruction := by
  have hmoves : (t.point p :: ps.map t.point ++ [t.point p]).map Instruction.plotAbsolute =
      ((p :: ps ++ [p]).map Instruction.plotAbsolute).map t.instruction := by
    simp [Transform.instruction]
  rw [recordPolygon, hmoves, recordPolygon, List.map_append (f := t.instruction),
    List.map_append (f := t.instruction), h]
  rfl

theorem outlineProgram_eq_map (fill : Option Fill) (ps : List Point) :
    outlineProgram t fill (ps.map t.point) = (outlineDrawing fill ps).map t.instruction := by
  cases ps with
  | nil => rfl
  | cons p ps =>
    cases fill with
    | none =>
      rw [List.map_cons, outlineProgram, outlineDrawing, List.map_append, recordPolygon_eq_map rfl]
      rfl
    | some f =>
      rw [List.map_cons, outlineProgram, outlineDrawing, List.map_append, recordPolygon_eq_map rfl]
      rfl

/-- **The instructions of a call are its drawing, transformed.** -/
theorem program_eq_map (p : Primitive) : p.program t = p.drawing.map t.instruction := by
  cases p with
  | lineType l => cases l <;> rfl
  | applyStyle s => rcases s with ⟨_ | pen, _ | l, _ | f⟩ <;> rfl
  | lines ps => cases ps <;> rfl
  | polygon _ ps => exact outlineProgram_eq_map none ps
  | fillPolygon _ ps o => exact outlineProgram_eq_map (some o.fill) ps
  | _ => rfl

/-- **The statement of a call is its drawing**, each number of it transformed once. -/
theorem split_compose {p : Primitive} {st : Statement} (h : p.compose t = .ok st) :
    Statement.split st.text.toList = p.drawing.map fun i => (t.piece i.piece).text := by
  obtain ⟨ha, rfl⟩ := p.compose_eq_ok.mp h
  rw [Statement.split_ofInstructions (program_sendable ha), program_eq_map, List.map_map]
  refine List.map_congr_left fun i _ => ?_
  rw [Function.comp_apply, Instruction.text, Transform.piece_instruction]

end Primitive

/-! ## Two transforms -/

/-- The mnemonic of an instruction, from its text. -/
def mnemonicOf (cs : List Char) : String := String.ofList (cs.take 2)

/-- **Two instructions that differ in positions and lengths only**, by their texts: they have one
mnemonic and as many parameters, and those that are no measures of the drawing are the same, as are
the lengths under one scale. Labels have one text. -/
structure Alike (sameScale : Prop) (cs ds : List Char) : Prop where
  mnemonic : mnemonicOf ds = mnemonicOf cs
  count : (parameters (ds.drop 2)).length = (parameters (cs.drop 2)).length
  plain : ∀ k, role (mnemonicOf cs) k = .plain →
    (parameters (ds.drop 2))[k]? = (parameters (cs.drop 2))[k]?
  length : sameScale → ∀ k, role (mnemonicOf cs) k = .length →
    (parameters (ds.drop 2))[k]? = (parameters (cs.drop 2))[k]?
  label : mnemonicOf cs = "LB" → ds = cs

theorem Instruction.piece_cases (i : Instruction) :
    (∃ s, i.piece = .label s) ∨
      ∃ m ps, i.piece = .instruction m ps ∧ m.length = 2 ∧ m ≠ "LB" := by
  cases i with
  | label s => exact .inl ⟨s, rfl⟩
  | penUp target => cases target <;> exact .inr ⟨_, _, rfl, by decide, by decide⟩
  | lineType pattern =>
    rcases pattern with _ | ⟨n, s⟩ <;> exact .inr ⟨_, _, rfl, by decide, by decide⟩
  | fillType m hatching =>
    rcases hatching with _ | ⟨s, a⟩ <;> exact .inr ⟨_, _, rfl, by decide, by decide⟩
  | _ => exact .inr ⟨_, _, rfl, by decide, by decide⟩

section Texts

variable {m : String} (hm : m.length = 2) (ps : List Param)

include hm

theorem text_instruction : (Piece.instruction m ps).text.take 2 = m.toList ∧
    (Piece.instruction m ps).text.drop 2 = Param.list ps := by
  have htwo : m.toList.length = 2 := by rw [String.length_toList, hm]
  rw [Piece.text]
  exact ⟨List.take_left' htwo, List.drop_left' htwo⟩

theorem mnemonicOf_instruction : mnemonicOf (Piece.instruction m ps).text = m := by
  rw [mnemonicOf, (text_instruction hm ps).1, String.ofList_toList]

theorem parameters_instruction :
    parameters ((Piece.instruction m ps).text.drop 2) = ps.map Param.chars := by
  rw [(text_instruction hm ps).2, parameters_list]

end Texts

section Alike

variable {t₁ t₂ : Transform}

theorem alike_instruction {m : String} (hm : m.length = 2) (hlabel : m ≠ "LB") (ps : List Param) :
    Alike (t₁.scale = t₂.scale) (t₁.piece (.instruction m ps)).text
      (t₂.piece (.instruction m ps)).text := by
  have hparam (t : Transform) (k : ℕ) :
      (parameters ((t.piece (.instruction m ps)).text.drop 2))[k]? =
        ps[k]?.map fun p => (t.param m k p).chars := by
    rw [Transform.piece, parameters_instruction hm, List.getElem?_map, List.getElem?_mapIdx,
      Option.map_map]
    rfl
  have hmnemonic (t : Transform) : mnemonicOf (t.piece (.instruction m ps)).text = m :=
    mnemonicOf_instruction hm _
  constructor
  · rw [hmnemonic, hmnemonic]
  · simp [Transform.piece, parameters_instruction hm]
  · intro k hk
    rw [hmnemonic] at hk
    simp only [hparam, Transform.param_of_plain hk]
  · intro hs k hk
    rw [hmnemonic] at hk
    simp only [hparam, Transform.param_of_length hs hk]
  · intro h
    rw [hmnemonic] at h
    exact (hlabel h).elim

theorem alike_piece (i : Instruction) :
    Alike (t₁.scale = t₂.scale) (t₁.piece i.piece).text (t₂.piece i.piece).text := by
  obtain ⟨s, h⟩ | ⟨m, ps, h, hm, hlabel⟩ := i.piece_cases
  · rw [h]
    exact ⟨rfl, rfl, fun _ _ => rfl, fun _ _ _ => rfl, fun _ => rfl⟩
  · rw [h]
    exact alike_instruction hm hlabel ps

/-- **The statements of one call under two transforms** differ in positions and lengths only, under
one scale in positions only. Each is the drawing of the call, with every position and every length
of it transformed once and nothing else changed. -/
theorem compose_scales (p : Primitive) {st₁ st₂ : Statement} (h₁ : p.compose t₁ = .ok st₁)
    (h₂ : p.compose t₂ = .ok st₂) :
    List.Forall₂ (Alike (t₁.scale = t₂.scale)) (Statement.split st₁.text.toList)
        (Statement.split st₂.text.toList) ∧
      Statement.split st₁.text.toList = p.drawing.map (fun i => (t₁.piece i.piece).text) ∧
      Statement.split st₂.text.toList = p.drawing.map (fun i => (t₂.piece i.piece).text) := by
  have hsplit₁ := Primitive.split_compose h₁
  have hsplit₂ := Primitive.split_compose h₂
  refine ⟨?_, hsplit₁, hsplit₂⟩
  rw [hsplit₁, hsplit₂, List.forall₂_map_left_iff, List.forall₂_map_right_iff, List.forall₂_same]
  exact fun i _ => alike_piece i

/-- A hatched wedge under two origins and one scale: only the position is sent differently. -/
theorem compose_scales_wedge :
    let p := Primitive.fillWedge ⟨10, -2.5⟩ 3 0 1.5 ⟨some 5, .hatch 0.25 45⟩
    let t₁ : Transform := ⟨40, ⟨0, 0⟩⟩
    let t₂ : Transform := ⟨40, ⟨100, 7⟩⟩
    p.compose t₁ = .ok ⟨"PU;PA400,-100;FT3,10,45;WG60,0,85,5;"⟩ ∧
      p.compose t₂ = .ok ⟨"PU;PA500,-93;FT3,10,45;WG60,0,85,5;"⟩ ∧
      List.Forall₂ (Alike (t₁.scale = t₂.scale))
        (Statement.split "PU;PA400,-100;FT3,10,45;WG60,0,85,5;".toList)
        (Statement.split "PU;PA500,-93;FT3,10,45;WG60,0,85,5;".toList) := by
  intro p t₁ t₂
  have h₁ : p.compose t₁ = .ok ⟨"PU;PA400,-100;FT3,10,45;WG60,0,85,5;"⟩ :=
    p.compose_eq_ok.mpr ⟨by decide +kernel, by decide +kernel⟩
  have h₂ : p.compose t₂ = .ok ⟨"PU;PA500,-93;FT3,10,45;WG60,0,85,5;"⟩ :=
    p.compose_eq_ok.mpr ⟨by decide +kernel, by decide +kernel⟩
  exact ⟨h₁, h₂, (compose_scales p h₁ h₂).1⟩

end Alike

end HpGl
