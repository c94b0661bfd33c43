import HpGl.Proofs.Replay

/-!
# The pen and the polygon buffer

A plotter that draws what it is told has no way to refuse an instruction, so the order in which
instructions come is up to the sender. Replayed on a plotter with a pen and a polygon buffer, no
session ever sends an instruction out of order, and after every call the buffer is idle and the pen
is up, unless a `drawTo` left it down.

* `Plotter`, `Action`: the plotter, and what an instruction does to it.
* `Plotter.act`, `Plotter.replay`: one instruction, and the bytes of a session.
* `program_run`: what a drawing call does to the plotter.
* `pen_down_iff`: which calls leave the pen down.
* **`session_protocol`**: all calls of a session in any order, accepted and refused.
-/

namespace HpGl

/-! ## The plotter -/

/-- What an instruction does to the pen and to the polygon buffer. -/
inductive Action where
  | reset
  | penUp
  | penDown
  | move
  | openPolygon
  | closePolygon
  | drawPolygon
  | setFill
  | other
  deriving DecidableEq

/-- The polygon buffer. -/
inductive Buffer where
  | idle
  /-- Between `PM0` and `PM2`; `moved` if there was a `PA`. -/
  | recording (moved : Bool)
  /-- After `PM2`; `filled` if there was an `FT`. -/
  | closed (filled : Bool)
  deriving DecidableEq

/-- The plotter as far as it has a pen and a polygon buffer. -/
structure Plotter where
  penDown : Bool
  buffer : Buffer
  deriving DecidableEq

/-- **What an instruction does**, by its text. -/
def Action.ofText : List Char → Action
  | 'I' :: 'N' :: _ => reset
  | 'P' :: 'U' :: _ => penUp
  | 'P' :: 'D' :: _ => penDown
  | 'P' :: 'A' :: _ => move
  | ['P', 'M', '0'] => openPolygon
  | ['P', 'M', '2'] => closePolygon
  | 'E' :: 'P' :: _ => drawPolygon
  | 'F' :: 'P' :: _ => drawPolygon
  | 'F' :: 'T' :: _ => setFill
  | _ => other

namespace Plotter

/-- **One instruction**, if the buffer allows it. While a polygon is recorded the pen may go up and
down and move, and it has to move before the polygon is closed; a closed polygon may be given one
fill before it is drawn. -/
def act (d : Plotter) (a : Action) : Option Plotter :=
  match d.buffer, a with
  | .idle, .reset => some ⟨false, .idle⟩
  | .idle, .penUp => some ⟨false, .idle⟩
  | .idle, .penDown => some ⟨true, .idle⟩
  | .idle, .openPolygon => some ⟨d.penDown, .recording false⟩
  | .idle, .closePolygon => none
  | .idle, .drawPolygon => none
  | .idle, _ => some d
  | .recording moved, .penUp => some ⟨false, .recording moved⟩
  | .recording moved, .penDown => some ⟨true, .recording moved⟩
  | .recording _, .move => some ⟨d.penDown, .recording true⟩
  | .recording true, .closePolygon => some ⟨d.penDown, .closed false⟩
  | .recording _, _ => none
  | .closed false, .setFill => some ⟨d.penDown, .closed true⟩
  | .closed _, .drawPolygon => some ⟨d.penDown, .idle⟩
  | .closed _, _ => none

/-- Actions one after the other, if all of them are allowed. -/
def run (d : Plotter) (as : List Action) : Option Plotter := as.foldlM act d

/-- **The bytes of a session**, instruction by instruction. -/
def replay (d : Plotter) (bytes : List UInt8) : Option Plotter := do
  let st ← Statement.ofBytes? bytes
  d.run ((Statement.split st.text.toList).map Action.ofText)

theorem run_append (d : Plotter) (as bs : List Action) :
    d.run (as ++ bs) = (d.run as).bind fun d => d.run bs :=
  List.foldlM_append

end Plotter

/-- What an instruction does. -/
def Instruction.action : Instruction → Action
  | reset => .reset
  | penUp _ => .penUp
  | penDown _ => .penDown
  | plotAbsolute _ => .move
  | openPolygon => .openPolygon
  | closePolygon => .closePolygon
  | edgePolygon | fillPolygon => .drawPolygon
  | fillType _ _ => .setFill
  | _ => .other

theorem ofText_text (i : Instruction) : Action.ofText i.text = i.action := by
  cases i with
  | penUp target => cases target <;> rfl
  | lineType pattern => rcases pattern with _ | ⟨n, s⟩ <;> rfl
  | fillType model hatching => rcases hatching with _ | ⟨s, a⟩ <;> rfl
  | _ => rfl

theorem replay_ofInstructions {d : Plotter} {is : List Instruction} (h : ∀ i ∈ is, i.Sendable) :
    d.replay (Statement.ofInstructions is).bytes = d.run (is.map Instruction.action) := by
  rw [Plotter.replay, Statement.ofBytes?_bytes]
  change d.run ((Statement.split (Statement.ofInstructions is).text.toList).map Action.ofText) = _
  rw [Statement.split_ofInstructions h, List.map_map]
  exact congrArg (fun f => d.run (is.map f)) (funext ofText_text)

/-! ## Drawing calls -/

/-- What an accepted call does to the pen. -/
inductive PenEffect where
  | lifts
  | keeps
  | lowers
  deriving DecidableEq

/-- The pen after a call, given how it was. -/
def PenEffect.after (e : PenEffect) (penDown : Bool) : Bool :=
  match e with
  | lifts => false
  | keeps => penDown
  | lowers => true

/-- **What an accepted drawing call does to the pen.** Only `drawTo` leaves it down, and only calls
that set the plotter without drawing leave it as it is. -/
def Primitive.penEffect : Primitive → PenEffect
  | drawTo _ => .lowers
  | selectPen _ | lineType _ | fillType _ | applyStyle _ | rotate _ | penSpeed _ => .keeps
  | _ => .lifts

namespace Primitive

variable {t : Transform}

theorem run_moves (pen moved : Bool) (p : Point) (ps : List Point) :
    (⟨pen, .recording moved⟩ : Plotter).run (((p :: ps).map Instruction.plotAbsolute).map
      Instruction.action) = some ⟨pen, .recording true⟩ := by
  induction ps generalizing p moved with
  | nil => cases moved <;> rfl
  | cons q ps ih => cases moved <;> exact ih true q

/-- The edge of a polygon is recorded with the pen down and drawn once the polygon is closed. -/
theorem run_edge (pen : Bool) (p : Point) (ps : List Point) :
    (⟨pen, .idle⟩ : Plotter).run ((outlineProgram t none (p :: ps)).map Instruction.action) =
      some ⟨false, .idle⟩ := by
  change (⟨true, .recording false⟩ : Plotter).run
    (((p :: (ps ++ [p])).map Instruction.plotAbsolute ++
      [Instruction.penUp none, .closePolygon, .edgePolygon]).map Instruction.action) = _
  rw [List.map_append, Plotter.run_append, run_moves]
  rfl

/-- A polygon to be filled is recorded with the pen up and given its fill once it is closed. -/
theorem run_fill (pen : Bool) (f : Fill) (p : Point) (ps : List Point) :
    (⟨pen, .idle⟩ : Plotter).run ((outlineProgram t (some f) (p :: ps)).map Instruction.action) =
      some ⟨false, .idle⟩ := by
  change (⟨false, .recording false⟩ : Plotter).run
    (((p :: (ps ++ [p])).map Instruction.plotAbsolute ++
      [Instruction.closePolygon, t.fill f, .fillPolygon]).map Instruction.action) = _
  rw [List.map_append, Plotter.run_append, run_moves]
  rfl

/-- **What a drawing call does to the plotter**, whatever the pen was. -/
theorem program_run {p : Primitive} (h : p.Accepted t) (pen : Bool) :
    (⟨pen, .idle⟩ : Plotter).run ((p.program t).map Instruction.action) =
      some ⟨p.penEffect.after pen, .idle⟩ := by
  cases p with
  | lineType l => cases l <;> rfl
  | applyStyle s => rcases s with ⟨_ | pen, _ | l, _ | f⟩ <;> rfl
  | polygon outline ps =>
    obtain ⟨q, qs, rfl⟩ := List.exists_cons_of_ne_nil h.1
    exact run_edge (t := t) pen (t.point q) (qs.map t.point)
  | fillPolygon outline ps o =>
    obtain ⟨q, qs, rfl⟩ := List.exists_cons_of_ne_nil h.1.1
    exact run_fill pen o.fill (t.point q) (qs.map t.point)
  | _ => rfl

end Primitive

/-! ## Calls of a session -/

namespace Request

/-- What an accepted call does to the pen. -/
def penEffect : Request → PenEffect
  | draw p => p.penEffect
  | lineTypeMode .. | fillTypeMode .. | applyRawStyle _ => .keeps
  | write _ | send _ => .lifts

/-- The pen after a call, given how it was; a refused call does nothing. -/
def penAfter (t : Transform) (penDown : Bool) (r : Request) : Bool :=
  match r.compose t with
  | .ok _ => r.penEffect.after penDown
  | .error _ => penDown

variable {t : Transform}

theorem exists_of_toOption_map {α : Type} {x : Checked α} {f : α → Primitive} {p : Primitive}
    (h : (x.map f).toOption = some p) : ∃ a, p = f a := by
  rcases x with cause | a
  · exact nomatch h
  · exact ⟨a, (Option.some.inj h).symm⟩

theorem penEffect_primitive? {r : Request} {p : Primitive} (h : r.primitive? = some p) :
    r.penEffect = p.penEffect := by
  cases r with
  | draw q =>
    obtain rfl := Option.some.inj h
    rfl
  | lineTypeMode mode space =>
    obtain ⟨l, rfl⟩ := exists_of_toOption_map h
    rfl
  | fillTypeMode model spacing angle =>
    obtain ⟨f, rfl⟩ := exists_of_toOption_map h
    rfl
  | applyRawStyle s =>
    obtain ⟨s', rfl⟩ := exists_of_toOption_map h
    rfl
  | write text | send st => exact nomatch h

theorem program_run {r : Request} (hr : r.IsDrawing) (pen : Bool) :
    (⟨pen, .idle⟩ : Plotter).run ((r.program t).map Instruction.action) =
      some ⟨r.penAfter t pen, .idle⟩ := by
  rcases h : r.compose t with cause | st
  · rw [program_of_refused h, penAfter, h]
    rfl
  · obtain ⟨p, hp, ha, hprogram, -⟩ := program_of_accepted hr h
    rw [hprogram, penAfter, h, Primitive.program_run ha, penEffect_primitive? hp]

theorem flatMap_program_run {rs : List Request} (hrs : ∀ r ∈ rs, r.IsDrawing) (pen : Bool) :
    (⟨pen, .idle⟩ : Plotter).run ((rs.flatMap (program t)).map Instruction.action) =
      some ⟨rs.foldl (penAfter t) pen, .idle⟩ := by
  induction rs generalizing pen with
  | nil => rfl
  | cons r rs ih =>
    obtain ⟨hr, hrs⟩ := List.forall_mem_cons.mp hrs
    rw [List.flatMap_cons, List.map_append, Plotter.run_append, program_run hr]
    exact ih hrs _

theorem penEffect_eq_lowers {r : Request} : r.penEffect = .lowers ↔ ∃ p, r = draw (.drawTo p) := by
  constructor
  · intro h
    cases r with
    | draw p =>
      cases p with
      | drawTo p => exact ⟨p, rfl⟩
      | _ => exact nomatch h
    | _ => exact nomatch h
  · rintro ⟨p, rfl⟩
    rfl

/-- No accepted call lifts the pen. -/
def KeepDown (t : Transform) (rs : List Request) : Prop :=
  ∀ r ∈ rs, r.Accepted t → r.penEffect ≠ .lifts

/-- A `drawTo` was accepted, and no accepted call has lifted the pen since. -/
def LeftDown (t : Transform) (rs : List Request) : Prop :=
  ∃ before p after, rs = before ++ draw (.drawTo p) :: after ∧ (draw (.drawTo p)).Accepted t ∧
    KeepDown t after

theorem leftDown_cons {r : Request} {rs : List Request} :
    LeftDown t (r :: rs) ↔
      (r.penEffect = .lowers ∧ r.Accepted t ∧ KeepDown t rs) ∨ LeftDown t rs := by
  constructor
  · rintro ⟨before, p, after, h, ha, hk⟩
    cases before with
    | nil =>
      obtain ⟨rfl, rfl⟩ := List.cons_eq_cons.mp h
      exact .inl ⟨rfl, ha, hk⟩
    | cons b before =>
      obtain ⟨rfl, rfl⟩ := List.cons_eq_cons.mp h
      exact .inr ⟨before, p, after, rfl, ha, hk⟩
  · rintro (⟨hl, ha, hk⟩ | ⟨before, p, after, rfl, ha, hk⟩)
    · obtain ⟨p, rfl⟩ := penEffect_eq_lowers.mp hl
      exact ⟨[], p, rs, rfl, ha, hk⟩
    · exact ⟨r :: before, p, after, rfl, ha, hk⟩

/-- **Which calls leave the pen down.** -/
theorem pen_down_iff (t : Transform) (rs : List Request) (pen : Bool) :
    rs.foldl (penAfter t) pen = true ↔ (pen = true ∧ KeepDown t rs) ∨ LeftDown t rs := by
  induction rs generalizing pen with
  | nil => simp [KeepDown, LeftDown]
  | cons r rs ih =>
    have hk : KeepDown t (r :: rs) ↔ (r.Accepted t → r.penEffect ≠ .lifts) ∧ KeepDown t rs :=
      List.forall_mem_cons
    rw [List.foldl_cons, ih, hk, leftDown_cons]
    rcases h : r.compose t with cause | st
    · have hr : ¬ r.Accepted t := fun ⟨st, e⟩ => nomatch h.symm.trans e
      simp [penAfter, h, hr]
    · have hr : r.Accepted t := ⟨st, h⟩
      cases he : r.penEffect with
      | lifts => simp [penAfter, h, he, PenEffect.after, hr]
      | keeps => simp [penAfter, h, he, PenEffect.after, hr]
      | lowers =>
        -- the pen is down now, so only the calls behind this one matter
        simp only [penAfter, h, he, PenEffect.after, hr, true_and]
        constructor
        · exact .inr
        · rintro (⟨-, -, hk⟩ | h)
          · exact .inl hk
          · exact h

end Request

/-! ## Positions -/

/-- The text of an instruction that goes to a position or through positions. -/
def CarriesPosition : List Char → Prop
  | 'P' :: 'U' :: params => params ≠ []
  | 'P' :: 'D' :: params => params ≠ []
  | 'P' :: 'A' :: params => params ≠ []
  | 'A' :: 'A' :: params => params ≠ []
  | _ => False

/-- An instruction that has no position. -/
def Instruction.Still : Instruction → Prop
  | penUp (some _) | penDown (_ :: _) | plotAbsolute _ | arcAbsolute .. => False
  | _ => True

theorem still_text {i : Instruction} (h : i.Still) : ¬ CarriesPosition i.text := by
  cases i with
  | penUp target =>
    cases target with
    | none => exact fun e => e rfl
    | some p => exact h.elim
  | penDown path =>
    cases path with
    | nil => exact fun e => e rfl
    | cons p ps => exact h.elim
  | plotAbsolute p => exact h.elim
  | arcAbsolute p n c => exact h.elim
  | lineType pattern => rcases pattern with _ | ⟨n, s⟩ <;> exact id
  | fillType model hatching => rcases hatching with _ | ⟨s, a⟩ <;> exact id
  | _ => exact id

/-- **A drawing call with a position lifts the pen first**, `drawTo` excepted. -/
theorem Primitive.program_lifts (t : Transform) (p : Primitive) (hp : p.penEffect ≠ .lowers) :
    (∃ target is, p.program t = .penUp target :: is) ∨ ∀ i ∈ p.program t, i.Still := by
  cases p with
  | drawTo p => exact absurd rfl hp
  | lineType l => cases l <;> exact .inr (List.forall_mem_singleton.mpr trivial)
  | selectPen _ | rotate _ | penSpeed _ | fillType _ | reset =>
    exact .inr (List.forall_mem_singleton.mpr trivial)
  | applyStyle s =>
    rcases s with ⟨_ | pen, _ | l, _ | f⟩ <;>
      exact .inr (by simp [program, styleProgram, Instruction.Still, LineType.instruction,
        Transform.fill])
  | polygon outline ps =>
    cases ps with
    | nil => exact .inr (List.forall_mem_nil _)
    | cons p ps => exact .inl ⟨_, _, rfl⟩
  | fillPolygon outline ps o =>
    cases ps with
    | nil => exact .inr (List.forall_mem_nil _)
    | cons p ps => exact .inl ⟨_, _, rfl⟩
  | _ => exact .inl ⟨_, _, rfl⟩

/-- **Before the first position of a statement the pen is lifted**, `drawTo` excepted. -/
theorem Request.compose_lifts {t : Transform} {r : Request} (hr : r.IsDrawing)
    (hne : ∀ p, r ≠ .draw (.drawTo p)) {st : Statement} (h : r.compose t = .ok st)
    {before after : List (List Char)} {i : List Char}
    (hsplit : Statement.split st.text.toList = before ++ i :: after) (hi : CarriesPosition i) :
    ∃ j ∈ before ++ [i], Action.ofText j = .penUp := by
  obtain ⟨p, hp, -, hprogram, rfl⟩ := program_of_accepted hr h
  have hlowers : p.penEffect ≠ .lowers := by
    rw [← penEffect_primitive? hp, ne_eq, penEffect_eq_lowers]
    exact fun ⟨q, hq⟩ => hne q hq
  rw [Statement.split_ofInstructions (program_sendable hr), hprogram] at hsplit
  rcases p.program_lifts t hlowers with ⟨target, is, he⟩ | hstill
  · rw [he] at hsplit
    cases before with
    | nil =>
      obtain ⟨rfl, -⟩ := List.cons_eq_cons.mp hsplit
      exact ⟨_, List.mem_singleton_self _, ofText_text (.penUp target)⟩
    | cons b before =>
      obtain ⟨rfl, -⟩ := List.cons_eq_cons.mp hsplit
      exact ⟨_, List.mem_cons_self, ofText_text (.penUp target)⟩
  · have hmem : i ∈ (p.program t).map Instruction.text := by
      rw [hsplit]
      exact List.mem_append_right _ List.mem_cons_self
    obtain ⟨k, hk, rfl⟩ := List.mem_map.mp hmem
    exact absurd hi (still_text (hstill k hk))

/-! ## Sessions -/

/-- **The pen and the polygon buffer over a session.** Whatever the calls of a session are, all its
bytes can be replayed from a plotter with an idle buffer. After every call the buffer is idle again,
and the pen is down if and only if a `drawTo` has left it down. Every other statement lifts the pen
before it goes anywhere. -/
theorem session_protocol (c : Config) (hc : c.hasValidScale = true) :
    ∃ s o, Session.start c .accepting = .ok (s, o) ∧
      (∀ rs : List Request, (∀ r ∈ rs, r.IsDrawing) → ∀ pen : Bool,
        ∃ d, (⟨pen, .idle⟩ : Plotter).replay (s.performEach rs).1.sink.taken = some d ∧
          d.buffer = .idle ∧ (d.penDown = true ↔ Request.LeftDown (.ofConfig c) rs)) ∧
      ∀ r : Request, r.IsDrawing → (∀ p, r ≠ .draw (.drawTo p)) → ∀ st,
        r.compose (.ofConfig c) = .ok st → ∀ before i after,
          Statement.split st.text.toList = before ++ i :: after → CarriesPosition i →
            ∃ j ∈ before ++ [i], Action.ofText j = .penUp := by
  obtain ⟨s, o, hs, ha, ht, htaken, -⟩ := Session.start_accepting c hc
  refine ⟨s, o, hs, ?_, fun r hr hne st h before i after => Request.compose_lifts hr hne h⟩
  intro rs hrs pen
  have hreset : s.sink.taken = (Statement.ofInstructions [.reset]).bytes := htaken
  have hbytes := Session.performEach_instructions ha hreset hrs
  have hsend : ∀ i ∈ [Instruction.reset] ++ rs.flatMap (Request.program s.transform),
      i.Sendable := by
    refine List.forall_mem_append.mpr ⟨?_, Request.flatMap_program_sendable hrs⟩
    exact List.forall_mem_singleton.mpr trivial
  refine ⟨⟨rs.foldl (Request.penAfter (.ofConfig c)) false, .idle⟩, ?_, rfl, ?_⟩
  · rw [hbytes, replay_ofInstructions hsend, List.map_append, Plotter.run_append, ht]
    exact Request.flatMap_program_run hrs false
  · rw [Request.pen_down_iff]
    simp

/-- A pen that is left down: neither a refused line nor calls that set the plotter lift it. -/
theorem session_protocol_penDown :
    Config.letter.hasValidScale = true ∧
      ∃ s o, Session.start .letter .accepting = .ok (s, o) ∧
        ∃ d, (⟨true, .idle⟩ : Plotter).replay
            (s.performEach [.draw .park, .draw (.polygon .shape [⟨1, 2⟩, ⟨3, 4⟩]),
              .draw (.drawTo ⟨5, 6⟩), .draw (.line ⟨0, 0⟩ ⟨0 / 0, 1⟩), .lineTypeMode 9 none,
              .draw (.rotate 90)]).1.sink.taken = some d ∧
          d.buffer = .idle ∧ d.penDown = true := by
  have hc : Config.letter.hasValidScale = true := by decide
  obtain ⟨s, o, hs, hreplay, -⟩ := session_protocol .letter hc
  refine ⟨hc, s, o, hs, ?_⟩
  obtain ⟨d, hd, hidle, hdown⟩ := hreplay [.draw .park, .draw (.polygon .shape [⟨1, 2⟩, ⟨3, 4⟩]),
    .draw (.drawTo ⟨5, 6⟩), .draw (.line ⟨0, 0⟩ ⟨0 / 0, 1⟩), .lineTypeMode 9 none,
    .draw (.rotate 90)] (by simp [Request.IsDrawing]) true
  refine ⟨d, hd, hidle, hdown.mpr ⟨[.draw .park, .draw (.polygon .shape [⟨1, 2⟩, ⟨3, 4⟩])],
    ⟨5, 6⟩, _, rfl, ⟨_, (Primitive.compose_eq_ok _).mpr ⟨⟨by decide, by decide⟩, rfl⟩⟩, ?_⟩⟩
  intro r hr ha
  simp only [List.mem_cons, List.not_mem_nil, or_false] at hr
  rcases hr with rfl | rfl | rfl
  · obtain ⟨st, h⟩ := ha
    have hplaces := (Primitive.compose_eq_ok _).mp h
    exact absurd hplaces.1.2.1 (by decide)
  · exact nofun
  · exact nofun

end HpGl
