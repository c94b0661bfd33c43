import HpGl.Proofs.Building
import HpGl.Proofs.Bytes
import HpGl.Proofs.Replay

/-!
# Styles are applied whole or not at all

A style selects a pen, a line and a fill, and there is a separate call for each of them. Applying
the style sends what these calls would send, in one piece; if one of them would be refused, nothing
is sent and the refusal is that of the first. An unchecked style is checked in two passes, its plain
numbers first, but no second check comes before a first one that could fail.

* `RawStyle.calls`, `Style.calls`: the separate calls for the members that are set.
* `RawStyle.checks`, `Style.checks`: what these calls check and become, member by member.
* `styleInstructions_eq`, `validate_styleInstructions_eq`: a style is checked in this order.
* `Request.composeAll`: the statements of several calls in one, or the first refusal;
  `compose_applyStyle`, `compose_applyRawStyle`.
* **`style_applies_whole`**: both kinds of styles in any session.
-/

namespace HpGl

open Statement (concat)

/-! ## Checks in sequence -/

namespace Checked

variable {α β : Type} {f : α → Checked β}

theorem mapM_of_forall₂ {as : List α} {bs : List β}
    (h : List.Forall₂ (fun a b => f a = .ok b) as bs) : as.mapM f = .ok bs := by
  induction h with
  | nil => rfl
  | cons ha _ ih =>
    rw [List.mapM_cons, ha, ih]
    rfl

/-- **The first refusal counts.** -/
theorem mapM_of_refused {before after : List α} {a : α} {cause : Refusal}
    (hbefore : ∀ b ∈ before, ∃ x, f b = .ok x) (ha : f a = .error cause) :
    (before ++ a :: after).mapM f = .error cause := by
  induction before with
  | nil =>
    rw [List.nil_append, List.mapM_cons, ha]
    rfl
  | cons b before ih =>
    obtain ⟨⟨x, hx⟩, hbefore⟩ := List.forall_mem_cons.mp hbefore
    rw [List.cons_append, List.mapM_cons, hx, ih hbefore]
    rfl

end Checked

/-! ## The members of a style -/

/-- The separate calls for the members of an unchecked style. -/
def RawStyle.calls (s : RawStyle) : List Request :=
  (s.pen.map fun slot => .draw (.selectPen slot)).toList ++
    (s.lineType.map fun l => .lineTypeMode l.pattern l.spacePercent).toList ++
    (s.fill.map fun f => .draw (.fillType f)).toList

/-- The separate calls for the members of a style. -/
def Style.calls (s : Style) : List Request :=
  (s.pen.map fun p => .draw (.selectPen (Int32.ofNat p.slot))).toList ++
    (s.lineType.map fun l => .draw (.lineType (some l))).toList ++
    (s.fill.map fun f => .draw (.fillType f)).toList

/-- What is checked of a line pattern by its number, and what it becomes. -/
def RawLineType.check (l : RawLineType) : Checked Instruction := do
  let l ← LineType.ofPattern l.pattern l.spacePercent
  l.validate
  return l.instruction

/-- What is checked of a line pattern, and what it becomes. -/
def LineType.check (l : LineType) : Checked Instruction := do
  l.validate
  return l.instruction

variable (t : Transform)

/-- What is checked of an unchecked style, and what it becomes, member by member. -/
def RawStyle.checks (s : RawStyle) : List (Checked Instruction) :=
  (s.pen.map fun slot => do return .selectPen (← Pen.ofSlot slot).slot).toList ++
    (s.lineType.map RawLineType.check).toList ++ (s.fill.map t.fillType).toList

/-- What is checked of a style, and what it becomes, member by member. -/
def Style.checks (s : Style) : List (Checked Instruction) :=
  (s.pen.map fun p => .ok (.selectPen p.slot)).toList ++ (s.lineType.map LineType.check).toList ++
    (s.fill.map t.fillType).toList

theorem styleInstructions_eq (s : Style) :
    Primitive.styleInstructions t s = (s.checks t).mapM id := by
  rcases s with ⟨_ | pen, _ | l, _ | f⟩ <;>
    simp [Primitive.styleInstructions, Primitive.lineTypeInstructions, Style.checks,
      LineType.check, LineType.instruction] <;> rfl

/-- **Two passes over an unchecked style are one**: the plain numbers are checked before the rest,
but every fault is still met before those of the members behind it. -/
theorem validate_styleInstructions_eq (s : RawStyle) :
    (do Primitive.styleInstructions t (← s.validate)) = (s.checks t).mapM id := by
  rcases s with ⟨_ | slot, _ | l, _ | f⟩ <;>
    simp [RawStyle.validate, Primitive.styleInstructions, Primitive.lineTypeInstructions,
      RawStyle.checks, RawLineType.check, LineType.instruction]

/-! ## The separate calls -/

theorem concat_ofInstructions (iss : List (List Instruction)) :
    concat (iss.map .ofInstructions) = .ofInstructions iss.flatten := by
  have hpieces : iss.map Statement.ofInstructions =
      (iss.map (List.map Instruction.piece)).map .ofPieces := by
    rw [List.map_map]
    rfl
  rw [hpieces, Statement.concat_ofPieces, Statement.ofInstructions, List.map_flatten]

theorem Statement.bytes_concat (sts : List Statement) :
    (concat sts).bytes = sts.flatMap Statement.bytes := by
  rw [bytes_eq, concat, String.toList_join, List.flatMap_map, utf8, List.flatMap_assoc]
  exact List.flatMap_congr fun st _ => st.bytes_eq.symm

namespace Request

variable {t}

/-- The statements of several calls in one, or the refusal of the first that is refused. -/
def composeAll (t : Transform) (calls : List Request) : Checked Statement :=
  (calls.mapM (compose t)).map concat

/-- A call that checks one member and becomes one instruction. -/
def Sets (t : Transform) (r : Request) (check : Checked Instruction) : Prop :=
  r.compose t = check.map fun i => .ofInstructions [i]

theorem selectPen_sets (slot : Int32) :
    (draw (.selectPen slot)).Sets t (do return .selectPen (← Pen.ofSlot slot).slot) := by
  simp only [Sets, compose, Primitive.compose, Primitive.instructions,
    Primitive.selectPenInstructions]
  cases Pen.ofSlot slot <;> rfl

theorem pen_sets (p : Pen) :
    (draw (.selectPen (Int32.ofNat p.slot))).Sets t (.ok (.selectPen p.slot)) := by
  have hle := p.slot_le
  have hn : (Int32.ofNat p.slot).toInt = p.slot := Int32.toInt_ofNat_of_lt (by omega)
  have hp : Pen.ofSlot (Int32.ofNat p.slot) = .ok p := Pen.ofSlot_eq_ok.mpr hn
  have h := selectPen_sets (t := t) (Int32.ofNat p.slot)
  rw [hp] at h
  exact h

theorem lineType_sets (l : LineType) : (draw (.lineType (some l))).Sets t l.check := by
  simp only [Sets, compose, Primitive.compose, Primitive.instructions,
    Primitive.lineTypeInstructions, LineType.check]
  cases l.validate <;> rfl

theorem lineTypeMode_sets (l : RawLineType) :
    (lineTypeMode l.pattern l.spacePercent).Sets t l.check := by
  simp only [Sets, compose, RawLineType.check]
  cases LineType.ofPattern l.pattern l.spacePercent with
  | error cause => rfl
  | ok l => exact lineType_sets l

theorem fillType_sets (f : Fill) : (draw (.fillType f)).Sets t (t.fillType f) := by
  simp only [Sets, compose, Primitive.compose, Primitive.instructions]
  cases t.fillType f <;> rfl

theorem composeAll_eq {calls : List Request} {checks : List (Checked Instruction)}
    (h : List.Forall₂ (Sets t) calls checks) :
    composeAll t calls = (checks.mapM id).map .ofInstructions := by
  have hstatements : calls.mapM (compose t) =
      (checks.mapM id).map fun is => (is.map fun i => [i]).map .ofInstructions := by
    induction h with
    | nil => rfl
    | @cons r check calls checks hr _ ih =>
      rw [List.mapM_cons, hr, ih, List.mapM_cons]
      cases check with
      | error cause => rfl
      | ok i => cases checks.mapM id <;> rfl
  rw [composeAll, hstatements]
  cases checks.mapM id with
  | error cause => rfl
  | ok is =>
    simp only [Except.map]
    rw [concat_ofInstructions, ← List.flatMap_def, List.flatMap_singleton']

variable (t)

theorem forall₂_member {α : Type} {call : α → Request} {check : α → Checked Instruction}
    (h : ∀ a, (call a).Sets t (check a)) (o : Option α) :
    List.Forall₂ (Sets t) (o.map call).toList (o.map check).toList := by
  cases o with
  | none => exact .nil
  | some a => exact .cons (h a) .nil

/-- **A style composes what the separate calls compose**, or is refused as the first of them. -/
theorem compose_applyStyle (s : Style) :
    (draw (.applyStyle s)).compose t = composeAll t s.calls := by
  have hcalls : List.Forall₂ (Sets t) s.calls (s.checks t) :=
    List.rel_append (List.rel_append (forall₂_member t pen_sets s.pen)
      (forall₂_member t lineType_sets s.lineType)) (forall₂_member t fillType_sets s.fill)
  rw [composeAll_eq hcalls, ← styleInstructions_eq]
  rfl

/-- **An unchecked style composes what the separate calls compose**, or is refused as the first of
them. -/
theorem compose_applyRawStyle (s : RawStyle) :
    (applyRawStyle s).compose t = composeAll t s.calls := by
  have hcalls : List.Forall₂ (Sets t) s.calls (s.checks t) :=
    List.rel_append (List.rel_append (forall₂_member t selectPen_sets s.pen)
      (forall₂_member t lineTypeMode_sets s.lineType)) (forall₂_member t fillType_sets s.fill)
  rw [composeAll_eq hcalls, ← validate_styleInstructions_eq]
  simp only [compose]
  cases s.validate <;> rfl

end Request

/-! ## Sessions -/

/-- **A call is applied whole or not at all**, by the separate calls that it stands for. -/
structure Session.AppliesWhole (s : Session) (r : Request) (calls : List Request) : Prop where
  /-- If all of them would be accepted, their statements are sent one behind the other, in one
  send: the sink is offered the bytes of all of them as one statement, and flushed once behind
  them. -/
  whole : ∀ sts, List.Forall₂ (fun c st => c.compose s.transform = .ok st) calls sts →
    s.perform r = s.deliver (concat sts) ∧ (concat sts).bytes = sts.flatMap Statement.bytes ∧
      s.sink.Delivers (s.perform r).1.sink (sts.flatMap Statement.bytes)
        (s.perform r).2.delivery
  /-- Else nothing is sent, and the call returns in order and reports the refusal of the first that
  would be refused, under its own name. -/
  refused : ∀ before c after cause, calls = before ++ c :: after →
    (∀ b ∈ before, b.Accepted s.transform) → c.compose s.transform = .error cause →
      s.perform c = (s, .silent [.rejected c.name cause]) ∧
        s.perform r = (s, .silent [.rejected "apply_style" cause])

theorem Session.appliesWhole {s : Session} {r : Request} {calls : List Request}
    (hname : r.name = "apply_style")
    (hcompose : r.compose s.transform = Request.composeAll s.transform calls) :
    s.AppliesWhole r calls where
  whole sts hsts := by
    rw [Request.composeAll, Checked.mapM_of_forall₂ hsts] at hcompose
    have hperform : s.perform r = s.deliver (concat sts) := perform_of_ok hcompose
    have hbytes := Statement.bytes_concat sts
    refine ⟨hperform, hbytes, ?_⟩
    rw [hperform, ← hbytes]
    exact s.sink.send_delivers (concat sts).bytes
  refused before c after cause hcalls hbefore hc := by
    rw [Request.composeAll, hcalls, Checked.mapM_of_refused hbefore hc] at hcompose
    rw [perform_of_error hc, perform_of_error hcompose, hname]
    exact ⟨rfl, rfl⟩

/-- **Styles are applied whole or not at all**, in any session and whatever the members are: an
unchecked style by the calls for its plain numbers, a style by those for its members, its line
pattern of any number and length. -/
theorem style_applies_whole (s : Session) :
    (∀ raw : RawStyle, s.AppliesWhole (.applyRawStyle raw) raw.calls) ∧
      ∀ style : Style, s.AppliesWhole (.draw (.applyStyle style)) style.calls := by
  refine ⟨fun raw => ?_, fun style => ?_⟩
  · exact Session.appliesWhole rfl (Request.compose_applyRawStyle s.transform raw)
  · exact Session.appliesWhole rfl (Request.compose_applyStyle s.transform style)

/-- A style with a pen, a line and a fill that are all fit goes out in one write; one with a pen
that is fit, a line pattern that is not and a fill with a spacing that is not finite is reported for
its pattern, and no pen is selected. -/
theorem style_applies_whole_pattern :
    let s : Session := ⟨.letter, .accepting⟩
    let fit : RawStyle := ⟨some 3, some ⟨2, some 4⟩, some (.hatch 2 45)⟩
    let raw : RawStyle := ⟨some 3, some ⟨7, some 4⟩, some (.hatch (1 / 0) 45)⟩
    let style : Style := ⟨some ⟨3, by decide⟩, some ⟨7, some 4⟩, some (.hatch (1 / 0) 45)⟩
    (s.sink.Delivers (s.perform (.applyRawStyle fit)).1.sink
        "SP3;LT2,4;FT3,2,45;".toUTF8.toList (s.perform (.applyRawStyle fit)).2.delivery ∧
      (s.perform (.applyRawStyle fit)).2.delivery.writes.length = 1) ∧
      s.perform (.applyRawStyle raw) =
        (s, .silent [.rejected "apply_style" (.lineTypeOutOfRange 7)]) ∧
      s.perform (.draw (.applyStyle style)) =
        (s, .silent [.rejected "apply_style" (.lineTypeOutOfRange 7)]) := by
  intro s fit raw style
  have hpen : ∀ c ∈ [Request.draw (.selectPen 3)], c.Accepted s.transform := by
    intro c hc
    obtain rfl := List.mem_singleton.mp hc
    exact ⟨_, (Request.selectPen_sets 3).trans rfl⟩
  obtain ⟨hraw, hstyle⟩ := style_applies_whole s
  have hfit : List.Forall₂ (fun c st => c.compose s.transform = .ok st) fit.calls
      [⟨"SP3;"⟩, ⟨"LT2,4;"⟩, ⟨"FT3,2,45;"⟩] := by
    refine .cons ?_ (.cons ?_ (.cons ?_ .nil)) <;> decide +kernel
  have hbytes : [⟨"SP3;"⟩, ⟨"LT2,4;"⟩, ⟨"FT3,2,45;"⟩].flatMap Statement.bytes =
      "SP3;LT2,4;FT3,2,45;".toUTF8.toList := by decide +kernel
  refine ⟨⟨hbytes ▸ ((hraw fit).whole _ hfit).2.2, by decide +kernel⟩, ?_, ?_⟩
  · exact ((hraw raw).refused _ (.lineTypeMode 7 (some 4)) _ _ rfl hpen rfl).2
  · exact ((hstyle style).refused _ (.draw (.lineType (some ⟨7, some 4⟩))) _ _ rfl hpen rfl).2

end HpGl
