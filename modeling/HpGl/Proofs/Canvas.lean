import HpGl.Proofs.Selection

/-!
# The plotter with its paper

A plotter in absolute mode, with a pen over the paper and a buffer for the motions of a polygon. It
reads what it is sent instruction by instruction, and every instruction leaves marks.

* `Segment`, `Mark`, `Canvas`: straight lines, marks, and the plotter.
* `Canvas.obey`, `Canvas.run`, `Canvas.plot`: the plotter on an instruction, on a row of them, and
  on a statement.
* `Instruction.ink`, `inks`: what instructions that are sent do to it; `obey_text`, `run_texts`.
* **`plot_compose`**: the statement of a call.
-/

namespace HpGl

/-! ## The plotter -/

/-- A straight line. -/
structure Segment where
  start : Point
  stop : Point
  deriving DecidableEq

/-- A mark on the paper. -/
inductive Mark where
  | line (s : Segment)
  /-- The area inside a ring. -/
  | area (ring : List Segment)
  deriving DecidableEq

/-- The plotter with its paper. -/
structure Canvas where
  penDown : Bool
  position : Point
  /-- Motions are recorded, not made. -/
  recording : Bool
  /-- The polygon buffer: the motions that were recorded, each with whether the pen was down. -/
  buffer : List (Bool × Segment)
  deriving DecidableEq

/-- Pairs of coordinates. -/
def readPoints? : List (List Char) → Option (List Point)
  | [] => some []
  | x :: y :: rest => do return ⟨← readReal? x, ← readReal? y⟩ :: (← readPoints? rest)
  | [_] => none

namespace Canvas

/-- The pen is lifted. -/
def lift (c : Canvas) : Canvas := { c with penDown := false }

/-- The pen is lowered. -/
def lower (c : Canvas) : Canvas := { c with penDown := true }

/-- A motion to a point: recorded, or made with the pen as it is. -/
def moveTo (c : Canvas) (p : Point) : Canvas × List Mark :=
  let s : Segment := ⟨c.position, p⟩
  if c.recording then ({ c with position := p, buffer := c.buffer ++ [(c.penDown, s)] }, [])
  else ({ c with position := p }, if c.penDown then [.line s] else [])

/-- Motions from point to point. -/
def through (c : Canvas) : List Point → Canvas × List Mark
  | [] => (c, [])
  | p :: ps =>
    let (c, marks) := c.moveTo p
    let (c, marks') := c.through ps
    (c, marks ++ marks')

/-- Empty the buffer and record into it. -/
def openPolygon (c : Canvas) : Canvas := { c with recording := true, buffer := [] }

/-- Stop recording. -/
def closePolygon (c : Canvas) : Canvas := { c with recording := false }

/-- The motions of the buffer that were recorded with the pen down. -/
def edges (c : Canvas) : List Mark := (c.buffer.filter Prod.fst).map fun m => .line m.2

/-- The area inside the motions of the buffer. -/
def area (c : Canvas) : Mark := .area (c.buffer.map Prod.snd)

/-- **One instruction**, by its text, and the marks it leaves. `PU` lifts the pen, `PD` lowers it,
and both move if coordinates follow, as `PA` does with the pen as it is. `PM0` opens the polygon
buffer and `PM2` closes it, `EP` draws its edges and `FP` fills it. Other instructions do nothing to
the pen, the position and the buffer; what they draw themselves is left out. -/
def obey (c : Canvas) : List Char → Option (Canvas × List Mark)
  | 'P' :: 'U' :: cs => (readPoints? (parameters cs)).map c.lift.through
  | 'P' :: 'D' :: cs => (readPoints? (parameters cs)).map c.lower.through
  | 'P' :: 'A' :: cs => (readPoints? (parameters cs)).map c.through
  | ['P', 'M', '0'] => some (c.openPolygon, [])
  | ['P', 'M', '2'] => some (c.closePolygon, [])
  | ['E', 'P'] => some (c, c.edges)
  | ['F', 'P'] => some (c, [c.area])
  | _ => some (c, [])

/-- Instructions one after the other, with the marks that each of them leaves. -/
def run (c : Canvas) : List (List Char) → Option (Canvas × List (List Mark))
  | [] => some (c, [])
  | cs :: css => do
    let (c, marks) ← c.obey cs
    let (c, rest) ← c.run css
    return (c, marks :: rest)

/-- **A statement**, with the marks that each of its instructions leaves. -/
def plot (c : Canvas) (st : Statement) : Option (Canvas × List (List Mark)) :=
  c.run (Statement.split st.text.toList)

/-- Statements one after the other, with all their marks. -/
def plotAll (c : Canvas) : List Statement → Option (Canvas × List Mark)
  | [] => some (c, [])
  | st :: sts => do
    let (c, marks) ← c.plot st
    let (c, rest) ← c.plotAll sts
    return (c, marks.flatten ++ rest)

end Canvas

/-! ## Motions -/

/-- The lines from a point to the next ones. -/
def legs : Point → List Point → List Segment
  | _, [] => []
  | p, q :: ps => ⟨p, q⟩ :: legs q ps

theorem Canvas.through_drawn {c : Canvas} (hc : c.recording = false) (hpen : c.penDown = true)
    (ps : List Point) :
    c.through ps = ({ c with position := ps.getLastD c.position },
      (legs c.position ps).map .line) := by
  induction ps generalizing c with
  | nil => rfl
  | cons p ps ih =>
    have hmove : c.moveTo p = ({ c with position := p }, [.line ⟨c.position, p⟩]) := by
      simp [moveTo, hc, hpen]
    have hrest := ih (c := { c with position := p }) hc hpen
    rw [through, hmove]
    simp only [hrest, List.getLastD_cons]
    rfl

/-! ## Instructions -/

/-- A point as it is read on the plotter, where no zero has a sign. -/
def Point.plain (p : Point) : Point := ⟨unsignedZero p.x, unsignedZero p.y⟩

/-- **What an instruction does**, and the marks it leaves. -/
def Instruction.ink (c : Canvas) : Instruction → Canvas × List Mark
  | penUp target => c.lift.through (target.toList.map Point.plain)
  | penDown path => c.lower.through (path.map Point.plain)
  | plotAbsolute p => c.through [p.plain]
  | openPolygon => (c.openPolygon, [])
  | closePolygon => (c.closePolygon, [])
  | edgePolygon => (c, c.edges)
  | fillPolygon => (c, [c.area])
  | _ => (c, [])

/-- Instructions one after the other, with the marks that each of them leaves. -/
def inks (c : Canvas) : List Instruction → Canvas × List (List Mark)
  | [] => (c, [])
  | i :: is =>
    let (c, marks) := i.ink c
    let (c, rest) := inks c is
    (c, marks :: rest)

theorem inks_append (c : Canvas) (is js : List Instruction) :
    inks c (is ++ js) =
      ((inks (inks c is).1 js).1, (inks c is).2 ++ (inks (inks c is).1 js).2) := by
  induction is generalizing c with
  | nil => rfl
  | cons i is ih => simp only [List.cons_append, inks, ih]

theorem inks_recorded {c : Canvas} (hc : c.recording = true) (ps : List Point) :
    inks c (ps.map .plotAbsolute) =
      ({ c with
          position := (ps.map Point.plain).getLastD c.position
          buffer := c.buffer ++ (legs c.position (ps.map Point.plain)).map (c.penDown, ·) },
        ps.map fun _ => []) := by
  induction ps generalizing c with
  | nil => simp [inks, legs]
  | cons p ps ih =>
    let c' : Canvas := { c with
      position := p.plain, buffer := c.buffer ++ [(c.penDown, ⟨c.position, p.plain⟩)] }
    have hink : (Instruction.plotAbsolute p).ink c = (c', []) := by
      simp [Instruction.ink, Canvas.through, Canvas.moveTo, hc, c']
    have hrest := ih (c := c') hc
    rw [List.map_cons, inks, hink]
    simp only [hrest, c', List.map_cons, List.getLastD_cons, legs, List.append_assoc,
      List.cons_append, List.nil_append]

/-- **The coordinates of points are read back.** -/
theorem readPoints?_parameters {ps : List Point} (h : ∀ p ∈ ps, p.isFinite = true) :
    readPoints? (parameters (Param.list
      ((ps.map fun p => (p.x, p.y)).flatMap fun (x, y) => [.real x, .real y]))) =
        some (ps.map Point.plain) := by
  rw [parameters_list]
  induction ps with
  | nil => rfl
  | cons p ps ih =>
    obtain ⟨hp, hps⟩ := List.forall_mem_cons.mp h
    obtain ⟨hx, hy⟩ := Bool.and_eq_true_iff.mp hp
    simp only [List.map_cons, List.flatMap_cons, List.cons_append, List.nil_append, readPoints?,
      readReal?_real hx, readReal?_real hy, ih hps]
    rfl

namespace Canvas

variable (c : Canvas)

/-- **The plotter understands every instruction that is sent**, and reads its coordinates as they
were. -/
theorem obey_text {i : Instruction} (h : i.Sendable) : c.obey i.text = some (i.ink c) := by
  cases i with
  | penUp target =>
    cases target with
    | none => rfl
    | some p =>
      have hp : ∀ q ∈ [p], q.isFinite = true := List.forall_mem_singleton.mpr (h p rfl)
      exact congrArg (Option.map c.lift.through) (readPoints?_parameters hp)
  | penDown path => exact congrArg (Option.map c.lower.through) (readPoints?_parameters h)
  | plotAbsolute p =>
    have hp : ∀ q ∈ [p], q.isFinite = true := List.forall_mem_singleton.mpr h
    exact congrArg (Option.map c.through) (readPoints?_parameters hp)
  | lineType pattern => rcases pattern with _ | ⟨n, s⟩ <;> rfl
  | fillType m hatching => rcases hatching with _ | ⟨s, a⟩ <;> rfl
  | _ => rfl

theorem run_texts {is : List Instruction} (h : ∀ i ∈ is, i.Sendable) :
    c.run (is.map Instruction.text) = some (inks c is) := by
  induction is generalizing c with
  | nil => rfl
  | cons i is ih =>
    obtain ⟨hi, his⟩ := List.forall_mem_cons.mp h
    rw [List.map_cons, run, obey_text c hi, Option.bind_eq_bind, Option.bind_some]
    simp only
    rw [ih (i.ink c).1 his]
    rfl

/-- **The statement of a call**: the marks that each of its instructions leaves. -/
theorem plot_compose {t : Transform} {p : Primitive} {st : Statement} (h : p.compose t = .ok st) :
    c.plot st = some (inks c (p.program t)) := by
  obtain ⟨ha, rfl⟩ := p.compose_eq_ok.mp h
  have hsend := Primitive.program_sendable ha
  rw [plot, Statement.split_ofInstructions hsend, run_texts c hsend]

end Canvas

end HpGl
