import HpGl.Proofs.Number
import HpGl.Proofs.StatementLog
import HpGl.Proofs.Text.Unescape

/-!
# The log of a session

Each report of a session becomes one entry of a log, and what was reported is read back from the
text of the entry: whatever texts a session is called with, no entry is on two lines, and none looks
like another.

* `Event.Record`, `Event.record`: what is to be known of a report.
* `oneLine_message`, `oneLine_line`: the wording of a refusal and the line of an entry are on one
  line.
* `Event.Record.ofText?`: a record by the text of its entry; **`ofText?_logEntry`**.
* `Session.effects`: what can be seen of a run, its opening included; `effects_named`.
* **`session_log`**: the log of any run.
-/

namespace HpGl

open Text (OneLine)

/-! ## Texts on one line -/

section OneLine

theorem isControl_of_isNumeric {c : Char} (h : isNumeric c = true) : Text.isControl c = false := by
  rw [isNumeric, Bool.or_eq_true] at h
  rcases h with h | h
  · simp only [Char.isDigit, Bool.and_eq_true, decide_eq_true_eq, ge_iff_le,
      UInt32.le_iff_toNat_le] at h
    have hlo : 48 ≤ c.toNat := h.1
    have hhi : c.toNat ≤ 57 := h.2
    simp only [Text.isControl, Bool.or_eq_false_iff, Bool.and_eq_false_iff, decide_eq_false_iff_not]
    omega
  · rw [List.contains_iff_mem] at h
    have hall : OneLine "-.NaNinf".toList := by decide
    exact hall c h

theorem oneLine_of_numeric {cs : List Char} (h : ∀ c ∈ cs, isNumeric c = true) : OneLine cs :=
  fun c hc => isControl_of_isNumeric (h c hc)

theorem oneLine_append {s t : String} (hs : OneLine s.toList) (ht : OneLine t.toList) :
    OneLine (s ++ t).toList := by
  rw [String.toList_append]
  exact hs.append ht

theorem oneLine_quantity (what : Quantity) : OneLine what.name.toList := by
  cases what <;> decide

theorem oneLine_outline (what : Outline) : OneLine what.name.toList := by
  cases what <;> decide

/-- **The wording of a refusal is on one line.** -/
theorem oneLine_message (cause : Refusal) : OneLine cause.message.toList := by
  have hint (n : Int32) : OneLine (Refusal.message.showInteger n).toList := by
    rw [Refusal.message.showInteger, String.toList_ofList]
    exact oneLine_of_numeric (integerChars_numeric _)
  have hreal (v : Float) : OneLine (Layout.display.render v).toList := by
    rw [Layout.render, String.toList_ofList]
    exact oneLine_of_numeric (display_numeric v)
  cases cause with
  | penOutOfRange n | lineTypeOutOfRange n | invalidFillModel n | missingHatchParameters n =>
    exact oneLine_append (oneLine_append (by decide) (hint n)) (by decide)
  | invalidResolution v | invalidSpeed v | invalidScale v =>
    exact oneLine_append (by decide) (hreal v)
  | emptyPath what => exact oneLine_append (oneLine_outline what) (by decide)
  | embeddedLabelTerminator i =>
    refine oneLine_append (by decide) ?_
    rw [String.toList_ofList]
    exact oneLine_of_numeric digitsOf_numeric
  | nonFinite what => exact oneLine_append (oneLine_quantity what) (by decide)

theorem oneLine_line {e : Event} (h : OneLine e.logEntry.text.toList) :
    OneLine e.logEntry.line.toList := by
  have hhead (level : LogLevel) :
      OneLine (LogEntry.line.pad 5 level.name ++ " " ++ Event.logEntry.source ++ "] ").toList := by
    cases level <;> decide +kernel
  cases e with
  | statement st => exact oneLine_append (hhead .debug) h
  | rejected op cause => exact oneLine_append (hhead .warn) h

end OneLine

/-! ## Reports and their entries -/

/-- What is to be known of a report: the text of a statement, or the name of a call that was refused
and the wording of the cause. -/
inductive Event.Record where
  | statement (text : String)
  | rejected (operation message : String)
  deriving DecidableEq, Repr

/-- The record of a report. -/
def Event.record : Event → Record
  | statement st => .statement st.text
  | rejected op cause => .rejected op cause.message

/-- The remark at the end of the entry of a refusal. -/
def Event.Record.remark : List Char := "; nothing sent".toList

/-- **The record that an entry with this text stands for**: what is behind the colon is an escaped
statement or, behind the name of a call, the wording of a cause and a remark. -/
def Event.Record.ofText? (text : String) : Option Record :=
  let head := text.toList.takeWhile (· != ':')
  let rest := (text.toList.dropWhile (· != ':')).drop 2
  if head = "hpgl".toList then
    (Text.unescape? rest).map fun cs => statement (String.ofList cs)
  else
    some (rejected (String.ofList head) (String.ofList (rest.take (rest.length - remark.length))))

/-- A name under which a refusal can be told from a statement, and from the text behind it. -/
def IsCallName (name : String) : Prop :=
  ':' ∉ name.toList ∧ name.toList ≠ "hpgl".toList ∧ OneLine name.toList

instance (name : String) : Decidable (IsCallName name) := inferInstanceAs (Decidable (_ ∧ _))

/-- The names under which calls are reported. -/
def callNames : List String :=
  ["initialize", "park", "select_pen", "line_type", "rotate", "pen_speed", "fill_type",
    "apply_style", "send_to", "draw_line", "draw_to", "draw_lines", "draw_circle", "fill_circle",
    "draw_wedge", "fill_wedge", "draw_arc", "draw_rect", "fill_rect", "draw_shape", "draw_poly",
    "fill_shape", "fill_poly", "label", "write", "send"]

theorem Request.name_mem (r : Request) : r.name ∈ callNames := by
  cases r with
  | draw p =>
    cases p with
    | polygon outline _ | fillPolygon outline _ _ =>
      cases outline <;> simp [name, Primitive.name, callNames]
    | _ => simp [name, Primitive.name, callNames]
  | _ => simp [name, callNames]

theorem Request.name_isCallName (r : Request) : IsCallName r.name := by
  have hall : ∀ name ∈ callNames, IsCallName name := by decide +kernel
  exact hall r.name r.name_mem

/-- A report of a session: a refusal bears the name of a call. -/
def Event.Named : Event → Prop
  | statement _ => True
  | rejected op _ => IsCallName op

section Entries

variable {head rest : List Char}

theorem takeWhile_head (h : ':' ∉ head) :
    (head ++ ':' :: ' ' :: rest).takeWhile (· != ':') = head := by
  have hne : ∀ c ∈ head, (c != ':') = true := fun c hc => bne_iff_ne.mpr fun e => h (e ▸ hc)
  rw [List.takeWhile_append_of_pos hne]
  simp

theorem dropWhile_head (h : ':' ∉ head) :
    ((head ++ ':' :: ' ' :: rest).dropWhile (· != ':')).drop 2 = rest := by
  have hne : ∀ c ∈ head, (c != ':') = true := fun c hc => bne_iff_ne.mpr fun e => h (e ▸ hc)
  rw [List.dropWhile_append_of_pos hne]
  simp

end Entries

namespace Event

variable {e : Event}

/-- **A report is read back from the text of its entry.** -/
theorem ofText?_logEntry (h : e.Named) : Record.ofText? e.logEntry.text = some e.record := by
  cases e with
  | statement st =>
    have htext : (statement st).logEntry.text.toList =
        "hpgl".toList ++ ':' :: ' ' :: Text.escapedChars st.text.toList := by
      change ("hpgl: " ++ Text.escaped st.text).toList = _
      simp only [String.toList_append, Text.escaped, String.toList_ofList]
      rfl
    rw [Record.ofText?, htext, takeWhile_head (by decide), dropWhile_head (by decide)]
    simp only [if_true]
    rw [Text.unescape?_escapedChars, Option.map_some, String.ofList_toList]
    rfl
  | rejected op cause =>
    obtain ⟨hcolon, hne, -⟩ := h
    have htext : (rejected op cause).logEntry.text.toList =
        op.toList ++ ':' :: ' ' :: (cause.message.toList ++ Record.remark) := by
      change (op ++ ": " ++ cause.message ++ "; nothing sent").toList = _
      simp only [String.toList_append, List.append_assoc]
      rfl
    rw [Record.ofText?, htext, takeWhile_head hcolon, dropWhile_head hcolon]
    simp only [if_neg hne, List.length_append, Nat.add_sub_cancel, List.take_left,
      String.ofList_toList]
    rfl

/-- **The entry of a report is on one line.** -/
theorem oneLine_logEntry (h : e.Named) : OneLine e.logEntry.text.toList := by
  cases e with
  | statement st =>
    refine oneLine_append (by decide) ?_
    rw [Statement.escaped, Text.escaped, String.toList_ofList]
    exact Text.oneLine_escapedChars _
  | rejected op cause =>
    exact oneLine_append (oneLine_append (oneLine_append h.2.2 (by decide))
      (oneLine_message cause)) (by decide)

end Event

/-! ## Runs -/

/-- The entry that an effect leaves in a log. -/
def Effect.entry? (e : Effect) : Option LogEntry := e.event?.map Event.logEntry

/-- The record that is kept of an effect. -/
def Effect.record? (e : Effect) : Option Event.Record := e.event?.map Event.record

namespace Session

/-- What can be seen of a run on a sink: of the opening and, if the session opens, of the calls,
whatever each of them returns. -/
def effects (c : Config) (sink : Sink) (rs : List Request) : List Effect :=
  match start c sink with
  | .error (.refused _) => []
  | .error (.undelivered o _) => o.effects
  | .ok (s, o) => o.effects ++ (s.performEach rs).2.flatMap Outcome.effects

theorem perform_named (s : Session) (r : Request) : ∀ e ∈ (s.perform r).2.events, e.Named := by
  rcases h : r.compose s.transform with cause | st
  · rw [perform_of_error h, Outcome.events_silent]
    exact List.forall_mem_singleton.mpr r.name_isCallName
  · rw [perform_of_ok h, events_deliver]
    split
    · exact List.forall_mem_singleton.mpr trivial
    · exact List.forall_mem_nil _

theorem performEach_named (s : Session) (rs : List Request) :
    ∀ o ∈ (s.performEach rs).2, ∀ e ∈ o.events, e.Named := by
  induction rs generalizing s with
  | nil => exact List.forall_mem_nil _
  | cons r rs ih => exact List.forall_mem_cons.mpr ⟨s.perform_named r, ih _⟩

theorem effects_named (c : Config) (sink : Sink) (rs : List Request) :
    ∀ e ∈ (effects c sink rs).filterMap Effect.event?, e.Named := by
  have hfirst := perform_named ⟨c, sink⟩ (.draw .reset)
  unfold effects
  rcases hstart : start c sink with (cause | ⟨o, f⟩) | ⟨s, o⟩
  · exact List.forall_mem_nil _
  · obtain ⟨-, rfl, -⟩ := start_eq_undelivered.mp hstart
    exact hfirst
  · obtain ⟨-, hp, -⟩ := start_eq_ok.mp hstart
    rw [hp] at hfirst
    rw [List.filterMap_append, List.filterMap_flatMap]
    refine List.forall_mem_append.mpr ⟨hfirst, fun e he => ?_⟩
    obtain ⟨o', ho', he⟩ := List.mem_flatMap.mp he
    exact performEach_named s rs o' ho' e he

end Session

/-- **The log is a faithful image of a session.** Of any run, whatever its calls, its texts and its
sink, the log has one entry for each record that is kept, in the same order, and the record is read
back from the text of the entry. No entry has a control character in its text or in its line, and no
two statements have one text. -/
theorem session_log (c : Config) (sink : Sink) (rs : List Request) :
    let effects := Session.effects c sink rs
    (effects.filterMap Effect.entry?).map (fun entry => Event.Record.ofText? entry.text) =
        (effects.filterMap Effect.record?).map some ∧
      (∀ entry ∈ effects.filterMap Effect.entry?,
        OneLine entry.text.toList ∧ OneLine entry.line.toList) ∧
      Function.Injective fun st : Statement => (Event.statement st).logEntry.text := by
  intro effects
  have hnamed := Session.effects_named c sink rs
  have hentries : effects.filterMap Effect.entry? =
      (effects.filterMap Effect.event?).map Event.logEntry := List.map_filterMap.symm
  have hrecords : effects.filterMap Effect.record? =
      (effects.filterMap Effect.event?).map Event.record := List.map_filterMap.symm
  refine ⟨?_, ?_, ?_⟩
  · rw [hentries, hrecords, List.map_map, List.map_map]
    exact List.map_congr_left fun e he => Event.ofText?_logEntry (hnamed e he)
  · rw [hentries]
    intro entry hentry
    obtain ⟨e, he, rfl⟩ := List.mem_map.mp hentry
    have htext := Event.oneLine_logEntry (hnamed e he)
    exact ⟨htext, oneLine_line htext⟩
  · intro st st' h
    have hread := Event.ofText?_logEntry (e := .statement st) trivial
    rw [show (Event.statement st).logEntry.text = (Event.statement st').logEntry.text from h,
      Event.ofText?_logEntry (e := .statement st') trivial] at hread
    cases st
    cases st'
    cases hread
    rfl

/-- A refused pen, and a text of the caller's with a line that looks like an entry: it stays within
its own entry and is read back from it. -/
theorem session_log_lookalike :
    let c : Config := { Config.letter with debug := true }
    let text := "LBa\n[WARN  penplot_hpgl::diagnostics] park: no; nothing sent\x03"
    let effects := Session.effects c .accepting [.draw (.selectPen 9), .write text]
    (effects.filterMap Effect.entry?).map LogEntry.line =
        ["DEBUG penplot_hpgl::diagnostics] hpgl: IN;",
          "WARN  penplot_hpgl::diagnostics] select_pen: pen slot 9 is not a valid pen slot " ++
            "(expected 0-6); nothing sent",
          "DEBUG penplot_hpgl::diagnostics] hpgl: LBa\\n[WARN  penplot_hpgl::diagnostics] " ++
            "park: no; nothing sent\\u\x7b3\x7d"] ∧
      (effects.filterMap Effect.entry?).map (fun entry => Event.Record.ofText? entry.text) =
        [some (.statement "IN;"),
          some (.rejected "select_pen" "pen slot 9 is not a valid pen slot (expected 0-6)"),
          some (.statement text)] ∧
        ∀ entry ∈ effects.filterMap Effect.entry?, OneLine entry.line.toList := by
  intro c text effects
  obtain ⟨hread, honeLine, -⟩ :=
    session_log c .accepting [.draw (.selectPen 9), .write text]
  refine ⟨by decide +kernel, hread.trans (by decide +kernel), ?_⟩
  exact fun entry hentry => (honeLine entry hentry).2

end HpGl
