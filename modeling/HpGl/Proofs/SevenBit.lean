import HpGl.Proofs.Acceptance
import HpGl.Proofs.Bytes

/-!
# Statements in seven bits

The instructions that drawing calls compose are characters below `0x80`, each of them a byte of its
own. The text of a label is sent as it is, so it is the one place from which a byte with its highest
bit set gets into a statement. A link of seven bits clears that bit: what it leaves of the byte
`0x83` is the terminator of the label, and the rest of the text becomes instructions.

* `Plain`, `piece_plain`: the characters of every instruction but a label.
* `Primitive.caption`, `program_cases`: the text of a label, and where it stands among the
  instructions of a call.
* `bytes_compose`: the bytes of a statement.
* `sevenBits`: what a link of seven bits leaves of a byte.
* **`compose_ascii`**: when the bytes of a statement are below `0x80`, and where its terminator
  stands.
* **`compose_ascii_breaks`**: a label that ends early on a link of seven bits.
-/

namespace HpGl

/-! ## Plain characters -/

/-- A character below `0x80` that does not end a label. -/
def Plain (c : Char) : Prop := IsAscii c ∧ c ≠ labelTerminator

instance : DecidablePred Plain := fun c =>
  inferInstanceAs (Decidable (IsAscii c ∧ c ≠ labelTerminator))

theorem plain_of_numeric {c : Char} (h : isNumeric c = true) : Plain c := by
  constructor
  · rw [isNumeric, Bool.or_eq_true] at h
    rcases h with h | h
    · have hdigit := Char.isDigit_iff_toNat.mp h
      have hnine : '9'.toNat = 57 := rfl
      unfold IsAscii
      omega
    · have hall : "-.NaNinf".toList.all (fun c => decide (IsAscii c)) = true := by decide
      exact of_decide_eq_true (List.all_eq_true.mp hall c (List.contains_iff_mem.mp h))
  · rintro rfl
    exact absurd h (by decide)

theorem instruction_plain {m : String} {ps : List Param}
    (hm : m.toList.all (fun c => decide (Plain c)) = true) :
    ∀ c ∈ (Piece.instruction m ps).chars, Plain c := by
  rw [Piece.chars, List.forall_mem_append, List.forall_mem_append]
  refine ⟨⟨fun c hc => ?_, fun c hc => ?_⟩, ?_⟩
  · exact of_decide_eq_true (List.all_eq_true.mp hm c hc)
  · rcases Param.list_characters ps c hc with h | rfl
    · exact plain_of_numeric h
    · decide
  · exact List.forall_mem_singleton.mpr (by decide)

namespace Instruction

/-- The text of a label. -/
def caption : Instruction → Option String
  | label text => some text
  | _ => none

theorem piece_plain {i : Instruction} (h : i.caption = none) : ∀ c ∈ i.piece.chars, Plain c := by
  cases i with
  | label text => exact nomatch h
  | penUp target => cases target <;> exact instruction_plain (by decide)
  | lineType pattern =>
    rcases pattern with _ | ⟨n, s⟩ <;> exact instruction_plain (by decide)
  | fillType m hatching =>
    rcases hatching with _ | ⟨s, a⟩ <;> exact instruction_plain (by decide)
  | _ => exact instruction_plain (by decide)

end Instruction

/-! ## Labels -/

namespace Primitive

variable {t : Transform}

/-- The text of a label. -/
def caption : Primitive → Option String
  | label text _ _ => some text
  | _ => none

theorem recordPolygon_caption {body : List Instruction} {p : Point} {ps : List Point}
    (h : ∀ i ∈ body, i.caption = none) : ∀ i ∈ recordPolygon body p ps, i.caption = none := by
  refine List.forall_mem_append.mpr ⟨List.forall_mem_append.mpr ⟨?_, h⟩, ?_⟩
  · simp [Instruction.caption]
  · exact List.forall_mem_map.mpr fun _ _ => rfl

theorem outlineProgram_caption (t : Transform) (fill : Option Fill) (ps : List Point) :
    ∀ i ∈ outlineProgram t fill ps, i.caption = none := by
  cases ps with
  | nil => exact nofun
  | cons p ps =>
    cases fill with
    | none =>
      refine List.forall_mem_append.mpr ⟨recordPolygon_caption ?_, ?_⟩ <;>
        simp [Instruction.caption]
    | some f =>
      refine List.forall_mem_append.mpr ⟨recordPolygon_caption nofun, ?_⟩
      simp [Instruction.caption, Transform.fill]

/-- **A label is the last instruction of its call**, and no other call has one. -/
theorem program_cases (t : Transform) (p : Primitive) :
    ∃ front, (∀ i ∈ front, i.caption = none) ∧
      p.program t = front ++ (p.caption.map Instruction.label).toList := by
  cases p with
  | label text q size =>
    refine ⟨[.penUp none, .plotAbsolute (t.point q), .standardSet,
      .characterSize (labelCell size).1 (labelCell size).2], ?_, rfl⟩
    simp [Instruction.caption]
  | polygon _ ps => exact ⟨_, outlineProgram_caption t none _, (List.append_nil _).symm⟩
  | fillPolygon _ ps o =>
    exact ⟨_, outlineProgram_caption t (some o.fill) _, (List.append_nil _).symm⟩
  | lineType l =>
    refine ⟨_, ?_, (List.append_nil _).symm⟩
    cases l <;> simp [program, LineType.instruction, Instruction.caption]
  | applyStyle s =>
    refine ⟨_, ?_, (List.append_nil _).symm⟩
    rcases s with ⟨_ | pen, _ | l, _ | f⟩ <;>
      simp [program, styleProgram, LineType.instruction, Transform.fill, Instruction.caption]
  | _ =>
    refine ⟨_, ?_, (List.append_nil _).symm⟩
    simp [program, Transform.fill, Instruction.caption]

/-- **The bytes of a statement**: plain ones, and behind them the text of a label with its
terminator if there is one. -/
theorem bytes_compose {p : Primitive} {st : Statement} (h : p.compose t = .ok st) :
    ∃ front : List Char, (∀ c ∈ front, Plain c) ∧ st.bytes = utf8 front ++
      (p.caption.map fun text => utf8 text.toList ++ [0x03]).getD [] := by
  obtain ⟨-, rfl⟩ := p.compose_eq_ok.mp h
  obtain ⟨is, his, hprogram⟩ := program_cases t p
  have hchars : (Statement.ofInstructions (p.program t)).text.toList =
      (is.flatMap fun i => i.piece.chars) ++
        ((p.caption.map Instruction.label).toList.flatMap fun i => i.piece.chars) := by
    rw [Statement.ofInstructions, Statement.ofPieces, String.toList_ofList, List.flatMap_map,
      hprogram, List.flatMap_append]
  rw [Statement.bytes_eq, hchars, utf8_append]
  cases p.caption with
  | none =>
    refine ⟨_, ?_, rfl⟩
    exact List.forall_mem_flatMap.mpr fun i hi => Instruction.piece_plain (his i hi)
  | some text =>
    refine ⟨(is.flatMap fun i => i.piece.chars) ++ ['L', 'B'], ?_, ?_⟩
    · refine List.forall_mem_append.mpr ⟨?_, ?_⟩
      · exact List.forall_mem_flatMap.mpr fun i hi => Instruction.piece_plain (his i hi)
      · exact List.forall_mem_cons.mpr ⟨by decide, List.forall_mem_singleton.mpr (by decide)⟩
    · simp [Instruction.piece, Piece.chars, labelTerminator]
      rfl

end Primitive

/-! ## Seven bits -/

/-- What a link of seven bits leaves of a byte. -/
def sevenBits (b : UInt8) : UInt8 := UInt8.ofNat (b.toNat % 0x80)

theorem sevenBits_eq_terminator {b : UInt8} : sevenBits b = 0x03 ↔ b = 0x03 ∨ b = 0x83 := by
  have hlt := b.toNat_lt
  have hbits : (sevenBits b).toNat = b.toNat % 0x80 :=
    UInt8.toNat_ofNat_of_lt' ((Nat.mod_lt _ (by decide)).trans (by decide))
  have h03 : (0x03 : UInt8).toNat = 3 := rfl
  have h83 : (0x83 : UInt8).toNat = 131 := rfl
  rw [← UInt8.toNat_inj, ← UInt8.toNat_inj, ← UInt8.toNat_inj, hbits, h03, h83]
  omega

theorem sevenBits_ne_terminator_iff {bs : List UInt8} (h : 0x03 ∉ bs) :
    (∀ b ∈ bs, sevenBits b ≠ 0x03) ↔ 0x83 ∉ bs := by
  simp only [ne_eq, sevenBits_eq_terminator]
  constructor
  · exact fun hall hmem => hall _ hmem (.inr rfl)
  · rintro hno b hb (rfl | rfl)
    · exact h hb
    · exact hno hb

theorem etx_mem_utf8 {cs : List Char} : 0x03 ∈ utf8 cs ↔ labelTerminator ∈ cs :=
  mem_utf8 (d := labelTerminator) (by decide) cs

/-- **When a statement is ASCII.** Its bytes are below `0x80` unless it is a label with another
character in its text. The terminator of a label is its last byte and is nowhere else in a
statement, and on a link of seven bits no other byte becomes one unless the text has a byte
`0x83`. -/
theorem compose_ascii (t : Transform) (p : Primitive) {st : Statement} (h : p.compose t = .ok st) :
    ((∀ b ∈ st.bytes, b.toNat < 0x80) ↔ ∀ text ∈ p.caption, ∀ c ∈ text.toList, IsAscii c) ∧
      (p.caption = none → 0x03 ∉ st.bytes) ∧
      ∀ text ∈ p.caption, ∃ body, st.bytes = body ++ [0x03] ∧ 0x03 ∉ body ∧
        ((∀ b ∈ body, sevenBits b ≠ 0x03) ↔ 0x83 ∉ utf8 text.toList) := by
  obtain ⟨front, hfront, hbytes⟩ := Primitive.bytes_compose h
  have hplain : ∀ b ∈ utf8 front, b.toNat < 0x80 :=
    (utf8_ascii_iff front).mpr fun c hc => (hfront c hc).1
  have hno : 0x03 ∉ utf8 front := fun hmem => (hfront _ (etx_mem_utf8.mp hmem)).2 rfl
  rw [hbytes]
  cases hp : p.caption with
  | none =>
    simp only [Option.map_none, Option.getD_none, List.append_nil]
    exact ⟨iff_of_true hplain nofun, fun _ => hno, nofun⟩
  | some text =>
    have haccepted : labelTerminator ∉ text.toList := by
      cases p <;> cases hp
      exact (Primitive.compose_eq_ok _ |>.mp h).1.1
    have htext : 0x03 ∉ utf8 text.toList := fun hmem => haccepted (etx_mem_utf8.mp hmem)
    simp only [Option.map_some, Option.getD_some, Option.mem_some_iff, forall_eq']
    refine ⟨?_, nofun, utf8 front ++ utf8 text.toList, ?_, ?_, ?_⟩
    · rw [List.forall_mem_append, List.forall_mem_append, List.forall_mem_singleton,
        ← utf8_ascii_iff]
      exact ⟨fun hall => hall.2.1, fun hall => ⟨hplain, hall, by decide⟩⟩
    · rw [List.append_assoc]
    · rw [List.mem_append, not_or]
      exact ⟨hno, htext⟩
    · have hfree : 0x83 ∉ utf8 front := fun hmem => absurd (hplain _ hmem) (by decide)
      rw [List.forall_mem_append, sevenBits_ne_terminator_iff hno,
        sevenBits_ne_terminator_iff htext]
      exact and_iff_right hfree

/-- A label with an accent: not ASCII, but it ends where it should. -/
theorem compose_ascii_accent :
    let p := Primitive.label "hé;" ⟨0, 0⟩ 10
    let st : Statement := ⟨"PU;PA0,0;SS;SI0.264,0.34848;LBhé;\x03"⟩
    p.compose ⟨1, ⟨0, 0⟩⟩ = .ok st ∧ ¬ (∀ b ∈ st.bytes, b.toNat < 0x80) ∧
      ∃ body, st.bytes = body ++ [0x03] ∧ 0x03 ∉ body ∧ ∀ b ∈ body, sevenBits b ≠ 0x03 := by
  intro p st
  have h : p.compose ⟨1, ⟨0, 0⟩⟩ = .ok st :=
    p.compose_eq_ok.mpr ⟨by decide +kernel, by decide +kernel⟩
  obtain ⟨hascii, -, hlabel⟩ := compose_ascii _ p h
  obtain ⟨body, hbytes, hbody, hseven⟩ := hlabel _ rfl
  refine ⟨h, fun hall => ?_, body, hbytes, hbody, hseven.mpr (by decide)⟩
  exact absurd (hascii.mp hall _ rfl 'é' (by decide)) (by decide)

/-- **A label that ends early.** Its text is accepted; on a link of seven bits the rest of it is an
instruction that takes another pen. -/
theorem compose_ascii_breaks :
    let st : Statement := ⟨"PU;PA0,0;SS;SI0.264,0.34848;LB\u0083SP6;\x03"⟩
    (Primitive.label "\u0083SP6;" ⟨0, 0⟩ 10).compose ⟨1, ⟨0, 0⟩⟩ = .ok st ∧
      ¬ (∀ b ∈ st.bytes, b.toNat < 0x80) ∧
      st.bytes.map sevenBits =
        (⟨"PU;PA0,0;SS;SI0.264,0.34848;LBB\x03SP6;\x03"⟩ : Statement).bytes := by
  intro st
  refine ⟨(Primitive.compose_eq_ok _).mpr ⟨by decide +kernel, by decide +kernel⟩, ?_, ?_⟩
  · intro hall
    rw [Statement.bytes_eq] at hall
    exact absurd (hall 0x83 (by decide)) (by decide)
  · rw [Statement.bytes_eq, Statement.bytes_eq]
    decide

end HpGl
