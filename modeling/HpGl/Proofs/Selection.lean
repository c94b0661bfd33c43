import HpGl.Proofs.ReadBack
import HpGl.Proofs.Replay

/-!
# What is selected on the plotter

Nothing in a session remembers which pen, line and fill are selected, so the plotter alone knows.
Replayed on a plotter that reads the numbers it is sent, every session leaves selected what its
accepted calls asked for.

* `Selection`: the pen, the line and the fill.
* `Selection.obey`, `Selection.replay`: the plotter, on one instruction and on the bytes of a
  session.
* `Request.selects`, `Request.selected`: what a call asks for, and what all accepted calls together
  do.
* `obey_text`: the plotter understands every instruction that is sent.
* `program_selects`: the instructions of a call select what it asks for.
* **`session_selection`**: all calls of a session in any order, accepted and refused.
-/

namespace HpGl

/-! ## The plotter -/

/-- What is selected on a plotter. -/
structure Selection where
  /-- A slot of the carousel. -/
  pen : ℕ
  /-- A dash pattern and its length; absent for solid lines. -/
  line : Option (ℕ × Option Float)
  /-- A fill model, with spacing and angle if it hatches. -/
  fill : ℕ × Option (Float × Float)
  deriving DecidableEq

/-- The parameters behind a mnemonic. -/
def parameters (cs : List Char) : List (List Char) := if cs = [] then [] else cs.splitOn ','

/-- A number of digits alone. -/
def readNat? (cs : List Char) : Option ℕ :=
  if cs ≠ [] ∧ ∀ c ∈ cs, c.isDigit = true then some (Decimal.valueOf cs) else none

/-- A number, as a double. -/
def readReal? (cs : List Char) : Option Float := readFloat? (String.ofList cs)

namespace Selection

/-- The slot behind `SP`. -/
def readPen? : List (List Char) → Option ℕ
  | [n] => readNat? n
  | _ => none

/-- The line behind `LT`. -/
def readLine? : List (List Char) → Option (Option (ℕ × Option Float))
  | [] => some none
  | [n] => do return some (← readNat? n, none)
  | [n, length] => do return some (← readNat? n, some (← readReal? length))
  | _ => none

/-- The fill behind `FT`. -/
def readFill? : List (List Char) → Option (ℕ × Option (Float × Float))
  | [m] => do return (← readNat? m, none)
  | [m, spacing, angle] => do
    return (← readNat? m, some (← readReal? spacing, ← readReal? angle))
  | _ => none

variable (initial : Selection)

/-- **One instruction**, by its text. `SP`, `LT` and `FT` are read with their parameters, `IN` goes
back to what is selected at power-on, and nothing else selects. -/
def obey (d : Selection) : List Char → Option Selection
  | 'I' :: 'N' :: _ => some initial
  | 'S' :: 'P' :: cs => (readPen? (parameters cs)).map fun pen => { d with pen }
  | 'L' :: 'T' :: cs => (readLine? (parameters cs)).map fun line => { d with line }
  | 'F' :: 'T' :: cs => (readFill? (parameters cs)).map fun fill => { d with fill }
  | _ => some d

/-- Instructions one after the other, if all of them are understood. -/
def run (d : Selection) (texts : List (List Char)) : Option Selection :=
  texts.foldlM (obey initial) d

/-- **The bytes of a session**, instruction by instruction. -/
def replay (d : Selection) (bytes : List UInt8) : Option Selection := do
  let st ← Statement.ofBytes? bytes
  run initial d (Statement.split st.text.toList)

end Selection

/-! ## What calls ask for -/

/-- A line pattern as it is selected; its length is a percentage and is not scaled. -/
def LineType.selected (l : LineType) : ℕ × Option Float := (l.pattern.toNat, l.spacePercent)

/-- A fill as it is selected, its spacing scaled. -/
def Fill.selected (scale : Float) (f : Fill) : ℕ × Option (Float × Float) :=
  (f.model, f.hatching.map fun h => (h.1 * scale, h.2))

/-- **What a drawing call selects.** The filled shapes select their fill, the outlines nothing. -/
def Primitive.selects (scale : Float) (initial d : Selection) : Primitive → Selection
  | reset => initial
  | park => { d with pen := 0 }
  | selectPen slot => { d with pen := slot.toInt.toNat }
  | lineType l => { d with line := l.map LineType.selected }
  | fillType f => { d with fill := f.selected scale }
  | applyStyle s =>
    { pen := (s.pen.map Pen.slot).getD d.pen
      line := (s.lineType.map (some ·.selected)).getD d.line
      fill := (s.fill.map (·.selected scale)).getD d.fill }
  | fillCircle _ _ o | fillWedge _ _ _ _ o | fillRectangle _ _ _ o | fillPolygon _ _ o =>
    { d with fill := o.fill.selected scale }
  | rotate _ | penSpeed _ | sendTo _ | line _ _ | drawTo _ | lines _ | circle _ _ _
  | wedge _ _ _ _ _ | arc _ _ _ _ _ | rectangle _ _ _ | polygon _ _ | label _ _ _ => d

namespace Request

/-- **What a call selects** if it is accepted, by its own arguments. -/
def selects (scale : Float) (initial d : Selection) : Request → Selection
  | draw p => p.selects scale initial d
  | lineTypeMode mode space => { d with line := some (mode.toInt.toNat, space) }
  | fillTypeMode model spacing angle =>
    { d with
      fill := (model.toInt.toNat,
        if model = 1 ∨ model = 2 then none else do return ((← spacing) * scale, ← angle)) }
  | applyRawStyle s =>
    { pen := (s.pen.map (·.toInt.toNat)).getD d.pen
      line := (s.lineType.map fun l => some (l.pattern.toInt.toNat, l.spacePercent)).getD d.line
      fill := (s.fill.map (·.selected scale)).getD d.fill }
  | write _ | send _ => d

/-- What is selected after a call; a refused call does not count. -/
def selectedAfter (t : Transform) (initial d : Selection) (r : Request) : Selection :=
  match r.compose t with
  | .ok _ => r.selects t.scale initial d
  | .error _ => d

/-- **What all calls of a session select**, from the state at power-on. -/
def selected (t : Transform) (initial : Selection) (rs : List Request) : Selection :=
  rs.foldl (selectedAfter t initial) initial

end Request

/-! ## Zeros -/

/-- The number, with the two zeros as one: neither has a sign on the wire. -/
def unsignedZero (v : Float) : Float := if v == 0 then 0 else v

@[simp] theorem unsignedZero_unsignedZero (v : Float) :
    unsignedZero (unsignedZero v) = unsignedZero v := by
  by_cases h : (v == 0) = true
  · simp only [unsignedZero, h, if_true]
    decide +kernel
  · simp [unsignedZero, h]

/-- What is selected, no number of it being a negative zero. -/
def Selection.plain (d : Selection) : Selection where
  pen := d.pen
  line := d.line.map fun l => (l.1, l.2.map unsignedZero)
  fill := (d.fill.1, d.fill.2.map fun h => (unsignedZero h.1, unsignedZero h.2))

/-! ## Reading parameters -/

theorem readNat?_integer (n : ℕ) : readNat? (Param.integer n).chars = some n := by
  have h : ¬ (n : ℤ) < 0 := by omega
  rw [Param.chars, integerChars, if_neg h, Int.natAbs_natCast, readNat?, if_pos,
    valueOf_digitsOf]
  exact digitsOf_isDigits n

theorem readReal?_real {v : Float} (hv : v.isFinite = true) :
    readReal? (Param.real v).chars = some (unsignedZero v) := by
  rw [readReal?, Param.chars, unsignedZero]
  split
  · decide +kernel
  · exact readFloat?_render .display hv

theorem display_chars_ne_nil (v : Float) : Layout.display.chars v ≠ [] := by
  have hmagnitude (d : Decimal) : Layout.display.magnitude d ≠ [] := by
    have := (Layout.display.numeral_wellFormed d).whole.1
    rw [← Layout.chars_numeral, Numeral.chars]
    simp [this]
  unfold Layout.chars
  split
  · exact List.cons_ne_nil _ _
  · simp only
    split
    · exact List.append_ne_nil_of_right_ne_nil _ (List.cons_ne_nil _ _)
    · exact List.append_ne_nil_of_right_ne_nil _ (hmagnitude _)

theorem param_chars_ne_nil (p : Param) : p.chars ≠ [] := by
  cases p with
  | integer n =>
    rw [Param.chars, integerChars]
    split
    · exact List.cons_ne_nil _ _
    · exact Nat.toDigits_ne_nil
  | real v =>
    rw [Param.chars]
    split
    · exact List.cons_ne_nil _ _
    · exact display_chars_ne_nil v

theorem parameters_list (ps : List Param) : parameters (Param.list ps) = ps.map Param.chars := by
  cases ps with
  | nil => rfl
  | cons p ps =>
    have hne : Param.list (p :: ps) ≠ [] := by
      cases ps with
      | nil => simpa [Param.list, List.intercalate] using param_chars_ne_nil p
      | cons q ps => simp [Param.list_cons_cons]
    have hcomma : ∀ cs ∈ (p :: ps).map Param.chars, ',' ∉ cs := by
      intro cs hcs hmem
      obtain ⟨q, -, rfl⟩ := List.mem_map.mp hcs
      exact absurd (q.chars_numeric ',' hmem) (by decide)
    rw [parameters, if_neg hne]
    exact List.splitOn_intercalate ',' hcomma (List.cons_ne_nil _ _)

/-! ## Instructions -/

namespace Instruction

/-- What is selected after an instruction. -/
def selects (initial d : Selection) : Instruction → Selection
  | reset => initial
  | selectPen n => { d with pen := n }
  | lineType l => { d with line := l.map fun l => (l.1, l.2.map unsignedZero) }
  | fillType m h => { d with fill := (m, h.map fun h => (unsignedZero h.1, unsignedZero h.2)) }
  | _ => d

variable {initial d : Selection}

open Selection

theorem obey_selectPen (ps : List Param) :
    obey initial d (Piece.instruction "SP" ps).text =
      (readPen? (ps.map Param.chars)).map fun pen => { d with pen } := by
  rw [← parameters_list]
  rfl

theorem obey_lineType (ps : List Param) :
    obey initial d (Piece.instruction "LT" ps).text =
      (readLine? (ps.map Param.chars)).map fun line => { d with line } := by
  rw [← parameters_list]
  rfl

theorem obey_fillType (ps : List Param) :
    obey initial d (Piece.instruction "FT" ps).text =
      (readFill? (ps.map Param.chars)).map fun fill => { d with fill } := by
  rw [← parameters_list]
  rfl

/-- **The plotter understands every instruction that is sent**, and reads its numbers as they
were. -/
theorem obey_text {i : Instruction} (h : i.Sendable) :
    obey initial d i.text = some (i.selects initial d) := by
  cases i with
  | selectPen n =>
    refine (obey_selectPen [.integer n]).trans ?_
    simp only [List.map_cons, List.map_nil, readPen?, readNat?_integer]
    rfl
  | lineType l =>
    rcases l with _ | ⟨n, _ | s⟩
    · exact obey_lineType []
    · refine (obey_lineType [.integer n]).trans ?_
      simp only [List.map_cons, List.map_nil, readLine?, readNat?_integer]
      rfl
    · have hs : s.isFinite = true := (h _ rfl).2 s rfl
      refine (obey_lineType [.integer n, .real s]).trans ?_
      simp only [List.map_cons, List.map_nil, readLine?, readNat?_integer, readReal?_real hs]
      rfl
  | fillType m f =>
    rcases f with _ | ⟨s, a⟩
    · refine (obey_fillType [.integer m]).trans ?_
      simp only [List.map_cons, List.map_nil, readFill?, readNat?_integer]
      rfl
    · obtain ⟨-, hs, ha⟩ := h
      refine (obey_fillType [.integer m, .real s, .real a]).trans ?_
      simp only [List.map_cons, List.map_nil, readFill?, readNat?_integer, readReal?_real hs,
        readReal?_real ha]
      rfl
  | penUp target => cases target <;> rfl
  | _ => rfl

theorem run_texts {is : List Instruction} (h : ∀ i ∈ is, i.Sendable) :
    run initial d (is.map text) = some (is.foldl (selects initial) d) := by
  induction is generalizing d with
  | nil => rfl
  | cons i is ih =>
    obtain ⟨hi, his⟩ := List.forall_mem_cons.mp h
    rw [run, List.map_cons, List.foldlM_cons, obey_text hi]
    exact ih his

theorem plain_selects (i : Instruction) :
    (i.selects initial d).plain = i.selects initial.plain d.plain := by
  cases i with
  | lineType l => rcases l with _ | ⟨n, _ | s⟩ <;> simp [selects, plain]
  | fillType m f => rcases f with _ | ⟨s, a⟩ <;> simp [selects, plain]
  | _ => rfl

theorem plain_foldl (is : List Instruction) :
    (is.foldl (selects initial) d).plain = is.foldl (selects initial.plain) d.plain := by
  induction is generalizing d with
  | nil => rfl
  | cons i is ih => rw [List.foldl_cons, List.foldl_cons, ih, plain_selects]

end Instruction

theorem replay_ofInstructions_selects {initial d : Selection} {is : List Instruction}
    (h : ∀ i ∈ is, i.Sendable) :
    Selection.replay initial d (Statement.ofInstructions is).bytes =
      some (is.foldl (Instruction.selects initial) d) := by
  rw [Selection.replay, Statement.ofBytes?_bytes]
  change Selection.run initial d (Statement.split (Statement.ofInstructions is).text.toList) = _
  rw [Statement.split_ofInstructions h, Instruction.run_texts h]

/-! ## Drawing calls -/

namespace Primitive

variable {t : Transform} {initial d : Selection}

open Instruction

theorem moves_select (ps : List Point) :
    (ps.map Instruction.plotAbsolute).foldl (Instruction.selects initial) d = d := by
  induction ps with
  | nil => rfl
  | cons p ps ih => exact ih

theorem outline_selects (p : Point) (ps : List Point) :
    (outlineProgram t none (p :: ps)).foldl (Instruction.selects initial) d = d := by
  change List.foldl (Instruction.selects initial) d (((p :: (ps ++ [p])).map .plotAbsolute) ++
    [Instruction.penUp none, .closePolygon, .edgePolygon]) = d
  rw [List.foldl_append, moves_select]
  rfl

theorem outline_selects_fill (f : Fill) (p : Point) (ps : List Point) :
    (outlineProgram t (some f) (p :: ps)).foldl (Instruction.selects initial) d =
      (t.fill f).selects initial d := by
  change List.foldl (Instruction.selects initial) d (((p :: (ps ++ [p])).map .plotAbsolute) ++
    [Instruction.closePolygon, t.fill f, .fillPolygon]) = _
  rw [List.foldl_append, moves_select]
  rfl

theorem fill_selects (initial d : Selection) (f : Fill) :
    (t.fill f).selects initial.plain d.plain = { d with fill := f.selected t.scale }.plain := by
  cases f <;> rfl

/-- **The instructions of a call select what it asks for.** -/
theorem program_selects {p : Primitive} (h : p.Accepted t) :
    (p.program t).foldl (Instruction.selects initial.plain) d.plain =
      (p.selects t.scale initial d).plain := by
  cases p with
  | lineType l => cases l <;> rfl
  | fillType f => exact fill_selects initial d f
  | applyStyle s => rcases s with ⟨_ | pen, _ | l, _ | (_ | _ | _ | _)⟩ <;> rfl
  | polygon outline ps =>
    obtain ⟨q, qs, rfl⟩ := List.exists_cons_of_ne_nil h.1
    exact outline_selects (t := t) (t.point q) (qs.map t.point)
  | fillPolygon outline ps o =>
    obtain ⟨q, qs, rfl⟩ := List.exists_cons_of_ne_nil h.1.1
    exact (outline_selects_fill o.fill (t.point q) (qs.map t.point)).trans
      (fill_selects initial d o.fill)
  | fillCircle c s o => exact fill_selects initial d o.fill
  | fillWedge c s a b o => exact fill_selects initial d o.fill
  | fillRectangle q w l o => exact fill_selects initial d o.fill
  | _ => rfl

end Primitive

/-! ## Calls of a session -/

namespace Request

variable {t : Transform} {initial d : Selection}

theorem selected_of_ofPattern {n : Int32} {space : Option Float} {l : LineType}
    (h : LineType.ofPattern n space = .ok l) : l.selected = (n.toInt.toNat, space) := by
  obtain ⟨hn, -, rfl⟩ := LineType.ofPattern_eq_ok.mp h
  rw [LineType.selected, hn, Int.toNat_natCast]

theorem slot_of_ofSlot {n : Int32} {p : Pen} (h : Pen.ofSlot n = .ok p) :
    p.slot = n.toInt.toNat := by
  rw [Pen.ofSlot_eq_ok.mp h, Int.toNat_natCast]

theorem ofModel_eq_ok {model : Int32} {spacing angle : Option Float} {f : Fill}
    (h : Fill.ofModel model spacing angle = .ok f) (scale : Float) :
    f.selected scale = (model.toInt.toNat,
      if model = 1 ∨ model = 2 then none else do return ((← spacing) * scale, ← angle)) := by
  unfold Fill.ofModel at h
  split at h
  · rename_i h1
    obtain rfl := Except.ok.inj h
    subst h1
    rfl
  · split at h
    · rename_i h2
      obtain rfl := Except.ok.inj h
      subst h2
      rfl
    · split at h
      · rename_i hn1 hn2 hm
        split at h
        · rename_i s a
          obtain rfl := Except.ok.inj h
          rcases hm with rfl | rfl <;> rfl
        · exact nomatch h
      · exact nomatch h

theorem map_eq_of_mapM {α β γ : Type} {f : α → Checked β} {g : β → γ} {k : α → γ}
    (h : ∀ {a b}, f a = .ok b → g b = k a) {o : Option α} {r : Option β} (hr : o.mapM f = .ok r) :
    r.map g = o.map k := by
  cases o with
  | none =>
    obtain rfl := Except.ok.inj hr
    rfl
  | some a =>
    rw [Option.mapM_some] at hr
    rcases hb : f a with cause | b
    · rw [hb] at hr
      exact nomatch hr
    · rw [hb] at hr
      obtain rfl := Except.ok.inj hr
      exact congrArg some (h hb)

theorem validate_selects {s : RawStyle} {s' : Style} (h : s.validate = .ok s') (scale : Float) :
    (Primitive.applyStyle s').selects scale initial d =
      (applyRawStyle s).selects scale initial d := by
  rw [RawStyle.validate] at h
  rcases hp : s.pen.mapM Pen.ofSlot with cause | pen
  · rw [hp] at h
    exact nomatch h
  rcases hl : s.lineType.mapM fun l => LineType.ofPattern l.pattern l.spacePercent with cause | line
  · rw [hp, hl] at h
    exact nomatch h
  rw [hp, hl] at h
  obtain rfl := Except.ok.inj h
  have hpen := map_eq_of_mapM slot_of_ofSlot hp
  have hline : line.map (fun l => some l.selected) =
      s.lineType.map fun l => some (l.pattern.toInt.toNat, l.spacePercent) :=
    map_eq_of_mapM (fun h => congrArg some (selected_of_ofPattern h)) hl
  simp only [Primitive.selects, selects]
  rw [hpen, hline]

theorem selects_primitive? {r : Request} {p : Primitive} (h : r.primitive? = some p)
    (scale : Float) : p.selects scale initial d = r.selects scale initial d := by
  cases r with
  | draw q =>
    obtain rfl := Option.some.inj h
    rfl
  | lineTypeMode mode space =>
    rcases hl : LineType.ofPattern mode space with cause | l
    · rw [primitive?, hl] at h
      cases h
    · rw [primitive?, hl] at h
      obtain rfl := Option.some.inj h
      simp only [Primitive.selects, selects, Option.map_some, selected_of_ofPattern hl]
  | fillTypeMode model spacing angle =>
    rcases hf : Fill.ofModel model spacing angle with cause | f
    · rw [primitive?, hf] at h
      cases h
    · rw [primitive?, hf] at h
      obtain rfl := Option.some.inj h
      simp only [Primitive.selects, selects, ofModel_eq_ok hf]
  | applyRawStyle s =>
    rcases hs : s.validate with cause | s'
    · rw [primitive?, hs] at h
      cases h
    · rw [primitive?, hs] at h
      obtain rfl := Option.some.inj h
      exact validate_selects hs scale
  | write text | send st => cases h

theorem program_selects {r : Request} (hr : r.IsDrawing) :
    (r.program t).foldl (Instruction.selects initial.plain) d.plain =
      (selectedAfter t initial d r).plain := by
  rcases h : r.compose t with cause | st
  · rw [program_of_refused h, selectedAfter, h]
    rfl
  · obtain ⟨p, hp, ha, hprogram, -⟩ := program_of_accepted hr h
    rw [hprogram, selectedAfter, h, Primitive.program_selects ha, selects_primitive? hp]

theorem flatMap_program_selects {rs : List Request} (hrs : ∀ r ∈ rs, r.IsDrawing) :
    (rs.flatMap (program t)).foldl (Instruction.selects initial.plain) d.plain =
      (rs.foldl (selectedAfter t initial) d).plain := by
  induction rs generalizing d with
  | nil => rfl
  | cons r rs ih =>
    obtain ⟨hr, hrs⟩ := List.forall_mem_cons.mp hrs
    rw [List.flatMap_cons, List.foldl_append, program_selects hr, ih hrs]
    rfl

end Request

/-! ## Sessions -/

/-- **What is selected over a session.** Whatever the calls of a session are, and whatever was
selected before it, a plotter understands all its bytes. After every call it has that pen, line and
fill selected that the accepted calls have asked for, up to the signs of zeros. -/
theorem session_selection (c : Config) (hc : c.hasValidScale = true) :
    ∃ s o, Session.start c .accepting = .ok (s, o) ∧
      ∀ rs : List Request, (∀ r ∈ rs, r.IsDrawing) → ∀ initial before : Selection,
        ∃ d, Selection.replay initial before (s.performEach rs).1.sink.taken = some d ∧
          d.plain = (Request.selected (.ofConfig c) initial rs).plain := by
  obtain ⟨s, o, hs, ha, ht, htaken, -⟩ := Session.start_accepting c hc
  refine ⟨s, o, hs, ?_⟩
  intro rs hrs initial before
  have hreset : s.sink.taken = (Statement.ofInstructions [.reset]).bytes := htaken
  have hsend : ∀ i ∈ [Instruction.reset] ++ rs.flatMap (Request.program s.transform),
      i.Sendable := by
    refine List.forall_mem_append.mpr ⟨?_, Request.flatMap_program_sendable hrs⟩
    exact List.forall_mem_singleton.mpr trivial
  rw [Session.performEach_instructions ha hreset hrs]
  refine ⟨_, replay_ofInstructions_selects hsend, ?_⟩
  rw [Instruction.plain_foldl, List.foldl_append, ht]
  exact Request.flatMap_program_selects hrs

/-- A style that is set in parts: a refused style counts for nothing, a filled shape for its fill,
an outline for nothing. -/
theorem session_selection_styles :
    Config.letter.hasValidScale = true ∧
      ∃ s o, Session.start .letter .accepting = .ok (s, o) ∧
        ∃ d, Selection.replay ⟨1, none, (1, none)⟩ ⟨5, some (3, none), (2, none)⟩
            (s.performEach [.applyRawStyle ⟨some 2, some ⟨4, some (-0.0)⟩, none⟩,
              .draw (.fillRectangle ⟨1, 2⟩ 3 4 ⟨none, .hatch 2.5 45⟩),
              .applyRawStyle ⟨some 3, some ⟨9, none⟩, some .solid⟩,
              .draw (.circle ⟨0, 0⟩ 1 ⟨none, .solid⟩)]).1.sink.taken = some d ∧
          d.plain = ⟨2, some (4, some 0), (3, some (2.5, 45))⟩ := by
  have hc : Config.letter.hasValidScale = true := by decide
  obtain ⟨s, o, hs, hreplay⟩ := session_selection .letter hc
  refine ⟨hc, s, o, hs, ?_⟩
  obtain ⟨d, hd, hplain⟩ := hreplay [.applyRawStyle ⟨some 2, some ⟨4, some (-0.0)⟩, none⟩,
    .draw (.fillRectangle ⟨1, 2⟩ 3 4 ⟨none, .hatch 2.5 45⟩),
    .applyRawStyle ⟨some 3, some ⟨9, none⟩, some .solid⟩,
    .draw (.circle ⟨0, 0⟩ 1 ⟨none, .solid⟩)] (by simp [Request.IsDrawing])
    ⟨1, none, (1, none)⟩ ⟨5, some (3, none), (2, none)⟩
  refine ⟨d, hd, hplain.trans ?_⟩
  decide +kernel

end HpGl
