import HpGl.Proofs.JobOutput
import HpGl.Proofs.Sendable
import HpGl.Proofs.Splitting

/-!
# The instructions of a session

The bytes that a session has sent split into the instructions of its accepted calls, so that a
plotter can be replayed on them.

* `Request.primitive?`, `Request.program`: the drawing call behind a call, and its instructions.
* `Instruction.text`: an instruction without its terminator; `split_ofInstructions`.
* `performEach_accepting`: calls on a sink that takes everything.
* **`performEach_instructions`**: the instructions behind the bytes of a session.
-/

namespace HpGl

/-! ## Instructions -/

namespace Instruction

/-- An instruction without its terminator. -/
def text (i : Instruction) : List Char := i.piece.text

theorem piece_closed {i : Instruction} (h : i.Sendable) : i.piece.Closed := by
  cases i with
  | label t => exact h
  | penUp target => cases target <;> exact ⟨by decide, by decide⟩
  | lineType pattern => rcases pattern with _ | ⟨n, s⟩ <;> exact ⟨by decide, by decide⟩
  | fillType model hatching => rcases hatching with _ | ⟨s, a⟩ <;> exact ⟨by decide, by decide⟩
  | _ => exact ⟨by decide, by decide⟩

end Instruction

namespace Statement

variable {is js : List Instruction}

/-- **The instructions of a statement** are those that it was composed of. -/
theorem split_ofInstructions (h : ∀ i ∈ is, i.Sendable) :
    split (ofInstructions is).text.toList = is.map Instruction.text := by
  rw [ofInstructions, ofPieces, String.toList_ofList, Piece.split_pieces, List.map_map]
  · rfl
  · exact List.forall_mem_map.mpr fun i hi => Instruction.piece_closed (h i hi)

theorem bytes_ofInstructions_nil : (ofInstructions []).bytes = [] := by
  rw [bytes, toList_eq]
  rfl

theorem bytes_ofInstructions_append :
    (ofInstructions (is ++ js)).bytes = (ofInstructions is).bytes ++ (ofInstructions js).bytes := by
  rw [ofInstructions, List.map_append, bytes_ofPieces_append]
  rfl

end Statement

/-! ## Calls -/

namespace Request

/-- The call is a drawing call, not a text or a statement of the caller's. -/
def IsDrawing : Request → Prop
  | write _ | send _ => False
  | _ => True

/-- The drawing call behind a call, once its plain numbers are checked. -/
def primitive? : Request → Option Primitive
  | draw p => some p
  | lineTypeMode mode space => ((LineType.ofPattern mode space).map (.lineType <| some ·)).toOption
  | fillTypeMode model spacing angle =>
    ((Fill.ofModel model spacing angle).map Primitive.fillType).toOption
  | applyRawStyle s => (s.validate.map Primitive.applyStyle).toOption
  | write _ | send _ => none

/-- The call is not refused. -/
def Accepted (t : Transform) (r : Request) : Prop := ∃ st, r.compose t = .ok st

/-- The instructions of a call; none if it is refused. -/
def program (t : Transform) (r : Request) : List Instruction :=
  match r.compose t, r.primitive? with
  | .ok _, some p => p.program t
  | _, _ => []

variable {t : Transform} {r : Request}

theorem checked_compose_eq_ok {α : Type} {x : Checked α} {f : α → Primitive} {st : Statement} :
    (do (f (← x)).compose t) = .ok st ↔
      ∃ p, (x.map f).toOption = some p ∧ p.compose t = .ok st := by
  rcases x with cause | a
  · simp [Except.map, Except.toOption, bind, Except.bind]
  · simp [Except.map, Except.toOption, bind, Except.bind]

theorem compose_eq_ok (hr : r.IsDrawing) {st : Statement} :
    r.compose t = .ok st ↔ ∃ p, r.primitive? = some p ∧ p.compose t = .ok st := by
  cases r with
  | draw p => simp [compose, primitive?]
  | lineTypeMode mode space => exact checked_compose_eq_ok
  | fillTypeMode model spacing angle => exact checked_compose_eq_ok
  | applyRawStyle s => exact checked_compose_eq_ok
  | write text => exact hr.elim
  | send st => exact hr.elim

theorem program_of_refused {cause : Refusal} (h : r.compose t = .error cause) :
    r.program t = [] := by
  rw [program, h]

/-- An accepted call has the instructions of the drawing call behind it. -/
theorem program_of_accepted (hr : r.IsDrawing) {st : Statement} (h : r.compose t = .ok st) :
    ∃ p, r.primitive? = some p ∧ p.Accepted t ∧ r.program t = p.program t ∧
      st = .ofInstructions (r.program t) := by
  obtain ⟨p, hp, hst⟩ := (compose_eq_ok hr).mp h
  obtain ⟨ha, rfl⟩ := p.compose_eq_ok.mp hst
  have hprogram : r.program t = p.program t := by rw [program, h, hp]
  exact ⟨p, hp, ha, hprogram, by rw [hprogram]⟩

theorem program_sendable (hr : r.IsDrawing) : ∀ i ∈ r.program t, i.Sendable := by
  rcases h : r.compose t with cause | st
  · rw [program_of_refused h]
    exact nofun
  · obtain ⟨p, -, ha, hprogram, -⟩ := program_of_accepted hr h
    rw [hprogram]
    exact Primitive.program_sendable ha

theorem flatMap_program_sendable {rs : List Request} (hrs : ∀ r ∈ rs, r.IsDrawing) :
    ∀ i ∈ rs.flatMap (program t), i.Sendable := by
  intro i hi
  obtain ⟨r, hr, hi⟩ := List.mem_flatMap.mp hi
  exact program_sendable (hrs r hr) i hi

theorem composed_eq (hr : r.IsDrawing) :
    r.composed t = (Statement.ofInstructions (r.program t)).bytes := by
  rcases h : r.compose t with cause | st
  · rw [composed, h, program_of_refused h]
    exact Statement.bytes_ofInstructions_nil.symm
  · obtain ⟨p, -, -, -, hst⟩ := program_of_accepted hr h
    rw [composed, h, hst]

end Request

/-! ## Sessions -/

namespace Session

variable {s : Session}

theorem performEach_accepting (hs : s.Accepting) (rs : List Request) :
    (s.performEach rs).1 = (s.performAll rs).1 := by
  induction rs generalizing s with
  | nil => rfl
  | cons r rs ih =>
    obtain ⟨hr, hs'⟩ := perform_accepting hs r
    rw [performAll_cons_of_ok rs hr, performEach]
    exact ih hs'

/-- **The instructions behind the bytes of a session**: what the sink held before, and those of the
calls that were accepted. -/
theorem performEach_instructions (hs : s.Accepting) {is : List Instruction}
    (htaken : s.sink.taken = (Statement.ofInstructions is).bytes) {rs : List Request}
    (hrs : ∀ r ∈ rs, r.IsDrawing) :
    (s.performEach rs).1.sink.taken =
      (Statement.ofInstructions (is ++ rs.flatMap (Request.program s.transform))).bytes := by
  rw [performEach_accepting hs, taken_performAll hs, htaken, Statement.bytes_ofInstructions_append]
  congr 1
  induction rs with
  | nil => exact Statement.bytes_ofInstructions_nil.symm
  | cons r rs ih =>
    obtain ⟨hr, hrs⟩ := List.forall_mem_cons.mp hrs
    rw [List.flatMap_cons, List.flatMap_cons, Statement.bytes_ofInstructions_append,
      Request.composed_eq hr, ih hrs]

end Session

end HpGl
