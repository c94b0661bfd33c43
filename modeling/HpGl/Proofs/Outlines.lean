import HpGl.Proofs.Canvas

/-!
# One outline, one ink

An outline can be sent as one line after another, as one path, or through the polygon buffer. The
statements differ, and a polygon is recorded before it is drawn, but the ink on the paper is the
same.

* `Transform.sent`, `Transform.outline`: where the plotter is sent, and the lines between.
* `closedPath`, `polygonCalls`: the way back to the first vertex, and the calls for a polygon, given
  as points or as a shape.
* `plotAll_lines`, `plotAll_pairs`: a path, and its lines one after the other.
* `silent_record`, `marksLast_of_silent`: a polygon is recorded without a mark.
* `DrawsPairs`, `GoesAround`: what it means to draw the same; `drawsPairs`, `goesAround_outline`,
  `goesAround_area`.
* **`outlines_ink`**: every list of points, on a plotter in any state.
-/

namespace HpGl

/-! ## Shapes -/

namespace Shape

theorem verticesFrom_eq (s : Shape) (next : ℕ) :
    s.verticesFrom next = (List.ofFn s.vertex).drop next := by
  fun_induction verticesFrom s next with
  | case1 next h ih =>
    rw [ih, List.drop_eq_getElem_cons (i := next) (by simpa using h), List.getElem_ofFn]
  | case2 next h => rw [List.drop_eq_nil_of_le (by simpa using h)]

theorem vertices_eq (s : Shape) : s.vertices = List.ofFn s.vertex := s.verticesFrom_eq 0

@[simp] theorem vertices_ofList (ps : List Point) : (ofList ps).vertices = ps := by
  rw [vertices_eq]
  exact List.ofFn_getElem

@[simp] theorem vertices_ofArray (ps : Array Point) : (ofArray ps).vertices = ps.toList := by
  rw [vertices_eq]
  exact List.ofFn_getElem

@[simp] theorem vertices_ofPolygon (p : Polygon) : (ofPolygon p).vertices = p.vertices :=
  vertices_ofList p.vertices

end Shape

/-! ## Outlines -/

/-- The way around a polygon, back to the first vertex. -/
def closedPath (ps : List Point) : List Point := ps ++ ps.head?.toList

/-- The calls for one polygon, given as points or as a shape of each kind. -/
def polygonCalls (call : Outline → List Point → Primitive) (ps : List Point) : List Primitive :=
  [call .polygon ps, call .shape (Shape.ofList ps).vertices,
    call .shape (Shape.ofArray ps.toArray).vertices, call .shape (Shape.ofPolygon ⟨ps⟩).vertices]

theorem eq_call_of_mem {call : Outline → List Point → Primitive} {ps : List Point} {p : Primitive}
    (hp : p ∈ polygonCalls call ps) : ∃ what, p = call what ps := by
  simp only [polygonCalls, Shape.vertices_ofList, Shape.vertices_ofArray,
    Shape.vertices_ofPolygon, List.mem_cons, List.not_mem_nil, or_false] at hp
  rcases hp with h | h | h | h <;> exact ⟨_, h⟩

namespace Transform

variable (t : Transform)

/-- Where the plotter is sent for a point of the drawing. -/
def sent (p : Point) : Point := (t.point p).plain

/-- The lines from each point to the next one. -/
def outline : List Point → List Segment
  | [] => []
  | p :: ps => legs (t.sent p) (ps.map t.sent)

end Transform

open Primitive (lines line polygon fillPolygon)

variable {t : Transform} {c : Canvas}

theorem exists_compose_iff (p : Primitive) : (∃ st, p.compose t = .ok st) ↔ p.Accepted t := by
  simp only [p.compose_eq_ok, exists_and_left, exists_eq, and_true]

/-! ## Paths -/

/-- The pen is up, over a point. -/
def Canvas.over (c : Canvas) (p : Point) : Canvas := { c with penDown := false, position := p }

/-- **A path** leaves its lines when the pen goes down. -/
theorem inks_lines (hc : c.recording = false) (p : Point) (ps : List Point) :
    inks c ((lines (p :: ps)).program t) =
      (c.over ((ps.map t.sent).getLastD (t.sent p)),
        [[], (t.outline (p :: ps)).map .line, []]) := by
  have hmove : (Instruction.penUp (some (t.point p))).ink c = (c.over (t.sent p), []) := by
    simp [Instruction.ink, Canvas.lift, Canvas.through, Canvas.moveTo, hc, Canvas.over,
      Transform.sent]
  have hdraw : (Instruction.penDown (ps.map t.point)).ink (c.over (t.sent p)) = _ :=
    Canvas.through_drawn (c := (c.over (t.sent p)).lower) hc rfl _
  have hpath : (ps.map t.point).map Point.plain = ps.map t.sent := List.map_map
  rw [hpath] at hdraw
  change inks c [.penUp (some (t.point p)), .penDown (ps.map t.point), .penUp none] = _
  simp only [inks, hmove, hdraw]
  rfl

theorem plotAll_cons {c₁ c₂ : Canvas} {st : Statement} {sts : List Statement}
    {marks : List (List Mark)} {rest : List Mark} (h : c.plot st = some (c₁, marks))
    (hrest : c₁.plotAll sts = some (c₂, rest)) :
    c.plotAll (st :: sts) = some (c₂, marks.flatten ++ rest) := by
  simp [Canvas.plotAll, h, hrest]

theorem plotAll_lines (hc : c.recording = false) {p : Point} {ps : List Point} {st : Statement}
    (h : (lines (p :: ps)).compose t = .ok st) :
    c.plotAll [st] = some (c.over ((ps.map t.sent).getLastD (t.sent p)),
      (t.outline (p :: ps)).map .line) := by
  have hplot := c.plot_compose h
  rw [inks_lines hc] at hplot
  rw [plotAll_cons hplot rfl]
  simp

theorem line_program (p q : Point) : (line p q).program t = (lines [p, q]).program t := rfl

theorem plot_line (hc : c.recording = false) {p q : Point} {st : Statement}
    (h : (line p q).compose t = .ok st) :
    c.plot st = some (c.over (t.sent q), [[], [.line ⟨t.sent p, t.sent q⟩], []]) := by
  rw [c.plot_compose h, line_program, inks_lines hc]
  rfl

/-- **The lines of a path, one after the other**, leave what the path leaves. -/
theorem plotAll_pairs (hc : c.recording = false) {p q : Point} {ps : List Point}
    {sts : List Statement}
    (h : List.Forall₂ (fun e s => (line e.1 e.2).compose t = .ok s)
      ((p :: q :: ps).zip (q :: ps)) sts) :
    c.plotAll sts = some (c.over (((q :: ps).map t.sent).getLastD (t.sent p)),
      (t.outline (p :: q :: ps)).map .line) := by
  induction ps generalizing c p q sts with
  | nil =>
    obtain _ | ⟨hst, _ | _⟩ := h
    rw [plotAll_cons (plot_line hc hst) rfl]
    simp [Transform.outline, legs]
  | cons r ps ih =>
    obtain _ | ⟨hst, hrest⟩ := h
    -- The first line leaves the pen up over `q`, where the path of the others begins.
    have hall := ih (c := c.over (t.sent q)) hc hrest
    rw [plotAll_cons (plot_line hc hst) hall]
    simp only [List.map_cons, List.getLastD_cons, Transform.outline, legs]
    rfl

/-! ## Polygons -/

/-- Instructions that leave no marks. -/
def Silent (c : Canvas) (is : List Instruction) (c' : Canvas) : Prop :=
  inks c is = (c', is.map fun _ => [])

theorem Silent.append {c₁ c₂ : Canvas} {is js : List Instruction} (h : Silent c is c₁)
    (h' : Silent c₁ js c₂) : Silent c (is ++ js) c₂ := by
  unfold Silent at *
  rw [inks_append, h, h', List.map_append]

/-- The lines that are recorded for a polygon: the vertices begin where the pen is. -/
def Transform.ring (t : Transform) (p : Point) (ps : List Point) : List Segment :=
  ⟨t.sent p, t.sent p⟩ :: t.outline (closedPath (p :: ps))

theorem getLastD_closed (p : Point) (ps : List Point) :
    ((ps ++ [p]).map t.sent).getLastD (t.sent p) = t.sent p := by
  rw [List.map_append, List.map_singleton, List.getLastD_concat]

/-- **Recording a polygon** leaves no marks, and all of its way in the buffer. -/
theorem silent_record (hc : c.recording = false) (down : Bool) (p : Point) (ps : List Point) :
    Silent c (Primitive.recordPolygon (if down then [.penDown []] else []) (t.point p)
        (ps.map t.point))
      ⟨down, t.sent p, true, (t.ring p ps).map (down, ·)⟩ := by
  have hopen : Silent c ([.penUp none, .plotAbsolute (t.point p), .openPolygon] ++
      if down then [.penDown []] else []) ⟨down, t.sent p, true, []⟩ := by
    cases down <;>
      simp [Silent, inks, Instruction.ink, Canvas.lift, Canvas.lower, Canvas.through,
        Canvas.moveTo, Canvas.openPolygon, hc, Transform.sent]
  -- The pen is over the first vertex when the buffer opens, so the first motion has no length.
  have hmoves : Silent ⟨down, t.sent p, true, []⟩
      ((t.point p :: ps.map t.point ++ [t.point p]).map .plotAbsolute)
      ⟨down, t.sent p, true, (t.ring p ps).map (down, ·)⟩ := by
    have hway : (t.point p :: ps.map t.point ++ [t.point p]).map Point.plain =
        t.sent p :: (ps ++ [p]).map t.sent := by
      simp [Transform.sent]
    rw [Silent, inks_recorded rfl, hway]
    simp only [List.getLastD_cons, getLastD_closed, List.nil_append, List.map_map]
    rfl
  exact hopen.append hmoves

/-! ## Statements -/

/-- **A statement leaves its marks at its last instruction**, and none before. -/
def Canvas.MarksLast (c : Canvas) (st : Statement) (last : String) (marks : List Mark)
    (c' : Canvas) : Prop :=
  ∃ before c₁, Statement.split st.text.toList = before ++ [last.toList] ∧
    c.run before = some (c₁, before.map fun _ => []) ∧ c₁.obey last.toList = some (c', marks)

theorem marksLast_of_silent {p : Primitive} {st : Statement} (h : p.compose t = .ok st)
    {before : List Instruction} {i : Instruction} (hprogram : p.program t = before ++ [i])
    {c₁ : Canvas} (hsilent : Silent c before c₁) {last : String} (hlast : i.text = last.toList) :
    c.MarksLast st last (i.ink c₁).2 (i.ink c₁).1 := by
  obtain ⟨ha, rfl⟩ := p.compose_eq_ok.mp h
  have hsend := Primitive.program_sendable ha
  rw [hprogram] at hsend
  obtain ⟨hbefore, hi⟩ := List.forall_mem_append.mp hsend
  refine ⟨before.map Instruction.text, c₁, ?_, ?_, ?_⟩
  · rw [hprogram, Statement.split_ofInstructions hsend, List.map_append, List.map_singleton, hlast]
  · rw [c.run_texts hbefore, hsilent, List.map_map]
    rfl
  · rw [← hlast, c₁.obey_text (hi i List.mem_cons_self)]

/-! ## The same ink -/

/-- The line is longer than a point. -/
def Segment.visible (s : Segment) : Bool := s.start ≠ s.stop

/-- **A path draws what its lines draw**: it is accepted if all of them are, and leaves the lines
from each point to the next one in their order, as they do one after the other. -/
structure DrawsPairs (t : Transform) (c : Canvas) (ps : List Point) : Prop where
  accepted : (∃ st, (lines ps).compose t = .ok st) ↔
    ∀ e ∈ ps.zip ps.tail, ∃ st, (line e.1 e.2).compose t = .ok st
  ink : ∀ ⦃st : Statement⦄ ⦃sts : List Statement⦄, (lines ps).compose t = .ok st →
    List.Forall₂ (fun e s => (line e.1 e.2).compose t = .ok s) (ps.zip ps.tail) sts →
      ∃ c', c.plotAll [st] = some (c', (t.outline ps).map .line) ∧
        c.plotAll sts = some (c', (t.outline ps).map .line)

/-- **A polygon goes the way around**: at its last instruction, and not before, it leaves the marks
of lines that are those of the path back to the first vertex, up to lines of no length. The pen ends
as it does after the path. -/
def GoesAround (t : Transform) (c : Canvas) (ps : List Point) (p : Primitive) (last : String)
    (shown : List Segment → List Mark) : Prop :=
  ∀ ⦃st way : Statement⦄, p.compose t = .ok st → (lines (closedPath ps)).compose t = .ok way →
    ∃ c₁ c₂, ∃ ring path : List Segment, c.MarksLast st last (shown ring) c₁ ∧
      c.plotAll [way] = some (c₂, path.map .line) ∧
      ring.filter Segment.visible = path.filter Segment.visible ∧
      c₁.penDown = c₂.penDown ∧ c₁.position = c₂.position

theorem places_pairs (p q : Point) (ps : List Point) :
    (∀ r ∈ p :: q :: ps, t.Places r) ↔
      ∀ e ∈ (p :: q :: ps).zip (q :: ps), t.Places e.1 ∧ t.Places e.2 := by
  induction ps generalizing p q with
  | nil => simp
  | cons r ps ih =>
    have hzip : (∀ e ∈ (p :: q :: r :: ps).zip (q :: r :: ps), t.Places e.1 ∧ t.Places e.2) ↔
        (t.Places p ∧ t.Places q) ∧
          ∀ e ∈ (q :: r :: ps).zip (r :: ps), t.Places e.1 ∧ t.Places e.2 :=
      List.forall_mem_cons
    rw [List.forall_mem_cons, ih q r, hzip]
    constructor
    · rintro ⟨hp, h⟩
      exact ⟨⟨hp, (h (q, r) List.mem_cons_self).1⟩, h⟩
    · rintro ⟨⟨hp, -⟩, h⟩
      exact ⟨hp, h⟩

theorem drawsPairs (hc : c.recording = false) {ps : List Point} (hps : 2 ≤ ps.length) :
    DrawsPairs t c ps := by
  obtain _ | ⟨p, _ | ⟨q, ps⟩⟩ := ps
  · exact absurd hps (by simp)
  · exact absurd hps (by simp)
  · constructor
    · simp only [exists_compose_iff]
      exact (and_iff_right (List.cons_ne_nil p _)).trans (places_pairs p q ps)
    · intro st sts hst hsts
      exact ⟨_, plotAll_lines hc hst, plotAll_pairs hc hsts⟩

theorem accepted_closedPath (ps : List Point) :
    (lines (closedPath ps)).Accepted t ↔ ps ≠ [] ∧ ∀ p ∈ ps, t.Places p := by
  cases ps with
  | nil => rfl
  | cons p ps =>
    refine and_congr (iff_of_true (List.cons_ne_nil _ _) (List.cons_ne_nil _ _)) ?_
    rw [closedPath, List.forall_mem_append]
    refine and_iff_left_of_imp fun h => ?_
    simpa using h p List.mem_cons_self

theorem visible_ring (p : Point) (ps : List Point) :
    (t.ring p ps).filter Segment.visible =
      (t.outline (closedPath (p :: ps))).filter Segment.visible :=
  List.filter_cons_of_neg (by simp [Segment.visible])

/-- A polygon that is recorded and closed, with its marks left at its last instruction. -/
theorem goesAround_of_silent (hc : c.recording = false) {p : Point} {ps : List Point}
    {call : Primitive} {before : List Instruction} {i : Instruction} {down : Bool}
    {last : String} {shown : List Segment → List Mark}
    (hprogram : call.program t = before ++ [i])
    (hsilent : Silent c before ⟨false, t.sent p, false, (t.ring p ps).map (down, ·)⟩)
    (hlast : i.text = last.toList)
    (hink : ∀ c', c'.buffer = (t.ring p ps).map (down, ·) → i.ink c' = (c', shown (t.ring p ps))) :
    GoesAround t c (p :: ps) call last shown := by
  intro st way hst hway
  have hmarks := marksLast_of_silent hst hprogram hsilent hlast
  rw [hink _ rfl] at hmarks
  change (lines (p :: (ps ++ [p]))).compose t = .ok way at hway
  have hplot := plotAll_lines hc hway
  rw [getLastD_closed] at hplot
  exact ⟨_, _, _, _, hmarks, hplot, visible_ring p ps, rfl, rfl⟩

theorem goesAround_outline (hc : c.recording = false) (what : Outline) (ps : List Point) :
    GoesAround t c ps (polygon what ps) "EP" (List.map .line) := by
  cases ps with
  | nil => exact fun _ _ h => absurd rfl ((polygon what []).compose_eq_ok.mp h).1.1
  | cons p ps =>
    have hprogram : (polygon what (p :: ps)).program t =
        (Primitive.recordPolygon (if true then [.penDown []] else []) (t.point p)
          (ps.map t.point) ++ [.penUp none, .closePolygon]) ++ [.edgePolygon] := by
      rw [List.append_assoc]
      rfl
    have hclose : Silent ⟨true, t.sent p, true, (t.ring p ps).map (true, ·)⟩
        [.penUp none, .closePolygon] ⟨false, t.sent p, false, (t.ring p ps).map (true, ·)⟩ := rfl
    refine goesAround_of_silent hc hprogram ((silent_record hc true p ps).append hclose) rfl ?_
    intro c' hbuffer
    simp [Instruction.ink, Canvas.edges, hbuffer, List.filter_map, Function.comp_def]

theorem goesAround_area (hc : c.recording = false) (what : Outline) (ps : List Point)
    (o : Options) :
    GoesAround t c ps (fillPolygon what ps o) "FP" fun ring => [.area ring] := by
  cases ps with
  | nil => exact fun _ _ h => absurd rfl ((fillPolygon what [] o).compose_eq_ok.mp h).1.1.1
  | cons p ps =>
    have hprogram : (fillPolygon what (p :: ps) o).program t =
        (Primitive.recordPolygon (if false then [.penDown []] else []) (t.point p)
          (ps.map t.point) ++ [.closePolygon, t.fill o.fill]) ++ [.fillPolygon] := by
      rw [List.append_assoc]
      rfl
    have hclose : Silent ⟨false, t.sent p, true, (t.ring p ps).map (false, ·)⟩
        [.closePolygon, t.fill o.fill] ⟨false, t.sent p, false, (t.ring p ps).map (false, ·)⟩ := rfl
    refine goesAround_of_silent hc hprogram ((silent_record hc false p ps).append hclose) rfl ?_
    intro c' hbuffer
    simp [Instruction.ink, Canvas.area, hbuffer, Function.comp_def]

/-- **One outline, one ink**, on a plotter in any state that is not recording. A path draws what its
lines draw. A polygon, however its vertices are given, is accepted if the path back to its first
vertex is, and draws what that path draws; it is filled if its fill is accepted too, and then its
area is the one inside that path. -/
theorem outlines_ink (hc : c.recording = false) (ps : List Point) :
    (2 ≤ ps.length → DrawsPairs t c ps) ∧
    (∀ p ∈ polygonCalls polygon ps,
      ((∃ st, p.compose t = .ok st) ↔ ∃ st, (lines (closedPath ps)).compose t = .ok st) ∧
        GoesAround t c ps p "EP" (List.map .line)) ∧
    (∀ o, ∀ p ∈ polygonCalls (fillPolygon · · o) ps,
      ((∃ st, p.compose t = .ok st) ↔ (∃ st, (lines (closedPath ps)).compose t = .ok st) ∧
        ∃ st, (Primitive.fillType o.fill).compose t = .ok st) ∧
          GoesAround t c ps p "FP" fun ring => [.area ring]) := by
  refine ⟨drawsPairs hc, ?_, ?_⟩
  · intro p hp
    obtain ⟨what, rfl⟩ := eq_call_of_mem hp
    simp only [exists_compose_iff, accepted_closedPath]
    exact ⟨Iff.rfl, goesAround_outline hc what ps⟩
  · intro o p hp
    obtain ⟨what, rfl⟩ := eq_call_of_mem hp
    simp only [exists_compose_iff, accepted_closedPath]
    exact ⟨Iff.rfl, goesAround_area hc what ps o⟩

/-- A triangle, on a plotter whose pen was left down somewhere else. -/
theorem outlines_ink_triangle :
    let t : Transform := ⟨40, ⟨0, 0⟩⟩
    let c : Canvas := ⟨true, ⟨7, 7⟩, false, []⟩
    let ps : List Point := [⟨0, 0⟩, ⟨1, 0⟩, ⟨1, 2⟩]
    let st : Statement := ⟨"PU;PA0,0;PM0;PD;PA0,0;PA40,0;PA40,80;PA0,0;PU;PM2;EP;"⟩
    let way : Statement := ⟨"PU0,0;PD40,0,40,80,0,0;PU;"⟩
    (polygon .polygon ps).compose t = .ok st ∧ (lines (closedPath ps)).compose t = .ok way ∧
      DrawsPairs t c ps ∧
      ∃ c₁ c₂, ∃ ring path : List Segment, c.MarksLast st "EP" (ring.map .line) c₁ ∧
        c.plotAll [way] = some (c₂, path.map .line) ∧
        ring.filter Segment.visible = path.filter Segment.visible ∧
        c₁.penDown = c₂.penDown ∧ c₁.position = c₂.position := by
  intro t c ps st way
  have hst : (polygon .polygon ps).compose t = .ok st :=
    (polygon .polygon ps).compose_eq_ok.mpr ⟨by decide +kernel, by decide +kernel⟩
  have hway : (lines (closedPath ps)).compose t = .ok way :=
    (lines (closedPath ps)).compose_eq_ok.mpr ⟨by decide +kernel, by decide +kernel⟩
  obtain ⟨hpairs, hpolygons, -⟩ := outlines_ink (t := t) (c := c) rfl ps
  have hgoes := (hpolygons (polygon .polygon ps) List.mem_cons_self).2
  exact ⟨hst, hway, hpairs (by decide), hgoes hst hway⟩

end HpGl
