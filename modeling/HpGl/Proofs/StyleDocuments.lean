import HpGl.Document.Drawing
import HpGl.Proofs.Acceptance
import HpGl.Proofs.Json.Embedding

/-!
# Styles, checked and unchecked

A style can be read from a document as it is, or unchecked and then checked. A pen is checked by
both ways: its reader takes the slots in `0..6` only. A line pattern is not: its reader takes every
number of eight bits, and the check only those in `0..6`. Up to these patterns the two ways agree on
every text.

* `Pen.number`, `LineType.raw`, `Style.raw`: the unchecked forms.
* `pen_embeds`, `lineType_embeds`, `style_embeds`: what is read as it is could be read unchecked.
* `RawStyle.validate_eq_ok`, `Style.validate_raw_eq_error`: the check.
* **`style_read_iff`**: the two ways to read a style.
* **`style_read_pattern`**: a pattern that only one of them takes.
-/

namespace HpGl

/-! ## Unchecked forms -/

/-- The number of a pen. -/
def Pen.number (p : Pen) : Int32 := Int32.ofNat p.slot

/-- The number of a line pattern. -/
def patternNumber (pattern : UInt8) : Int32 := Int32.ofNat pattern.toNat

/-- A line pattern, unchecked. -/
def LineType.raw (l : LineType) : RawLineType := ⟨patternNumber l.pattern, l.spacePercent⟩

/-- A style, unchecked. -/
def Style.raw (s : Style) : RawStyle := ⟨s.pen.map Pen.number, s.lineType.map LineType.raw, s.fill⟩

@[simp] theorem Pen.toInt_number (p : Pen) : p.number.toInt = p.slot := by
  have hle := p.slot_le
  exact Int32.toInt_ofNat_of_lt (by omega)

@[simp] theorem toInt_patternNumber (pattern : UInt8) :
    (patternNumber pattern).toInt = pattern.toNat := by
  have hlt := pattern.toNat_lt
  exact Int32.toInt_ofNat_of_lt (by omega)

theorem Pen.number_injective : Pen.number.Injective := by
  intro p q h
  have hslot : (p.slot : ℤ) = q.slot := by rw [← p.toInt_number, h, q.toInt_number]
  cases p
  cases q
  simpa using hslot

theorem patternNumber_injective : patternNumber.Injective := by
  intro m n h
  have hnumber : (m.toNat : ℤ) = n.toNat := by
    rw [← toInt_patternNumber, h, toInt_patternNumber]
  exact UInt8.toNat_inj.mp (by exact_mod_cast hnumber)

theorem LineType.raw_injective : LineType.raw.Injective := by
  intro l m h
  obtain ⟨hpattern, hspace⟩ := RawLineType.mk.inj h
  cases l
  cases m
  rw [LineType.mk.injEq]
  exact ⟨patternNumber_injective hpattern, hspace⟩

/-! ## Readers -/

namespace Json

theorem integerIn_eq_ok {name : String} {lo hi n : ℤ} {acc : Access} {s : Scan} :
    integerIn name lo hi acc s = .ok n ↔ s = .integer n ∧ lo ≤ n ∧ n ≤ hi := by
  unfold integerIn
  split
  · rename_i k
    split
    · rename_i hk
      rw [Except.ok.injEq, Scan.integer.injEq]
      exact ⟨fun h => ⟨h, h ▸ hk⟩, And.left⟩
    · rename_i hk
      rw [Scan.integer.injEq]
      exact iff_of_false nofun fun ⟨h, hn⟩ => hk (h ▸ hn)
  · rename_i hs
    exact iff_of_false (mismatch_ne_ok _ _ _) fun ⟨h, _⟩ => hs _ h

theorem int32_eq_ok {n : Int32} {acc : Access} {s : Scan} :
    int32 acc s = .ok n ↔ s = .integer n.toInt := by
  unfold int32
  simp only [map_eq_ok, integerIn_eq_ok]
  constructor
  · rintro ⟨k, ⟨rfl, hlo, hhi⟩, rfl⟩
    rw [Int32.toInt_ofInt_of_le (by omega) (by omega)]
  · rintro rfl
    have hlo := n.le_toInt
    have hhi := n.toInt_lt
    exact ⟨n.toInt, ⟨rfl, by omega, by omega⟩, n.ofInt_toInt⟩

theorem uint8_eq_ok {n : UInt8} {acc : Access} {s : Scan} :
    uint8 acc s = .ok n ↔ s = .integer n.toNat := by
  unfold uint8
  simp only [map_eq_ok, integerIn_eq_ok]
  constructor
  · rintro ⟨k, ⟨rfl, hlo, hhi⟩, rfl⟩
    have hlt : k.toNat < 256 := by omega
    rw [UInt8.toNat_ofNat_of_lt' hlt, Int.toNat_of_nonneg hlo]
  · rintro rfl
    have hlt := n.toNat_lt
    exact ⟨n.toNat, ⟨rfl, by omega, by omega⟩, UInt8.ofNat_toNat⟩

end Json

namespace Document

open Json (Reader Record)

theorem pen_embeds : pen.Embeds Json.int32 Pen.number := by
  intro acc s p
  unfold pen
  rw [Json.bind_eq_ok]
  constructor
  · rintro ⟨n, hn, h⟩
    split at h
    · rename_i q hq
      obtain rfl := Except.ok.inj h
      rw [hn, Except.ok.injEq, ← Int32.toInt_inj, Pen.ofSlot_eq_ok.mp hq, q.toInt_number]
    · exact nomatch h
  · intro h
    refine ⟨p.number, h, ?_⟩
    rw [Pen.ofSlot_eq_ok.mpr p.toInt_number]
    rfl

theorem pattern_embeds : Json.uint8.Embeds Json.int32 patternNumber := by
  intro acc s n
  rw [Json.uint8_eq_ok, Json.int32_eq_ok, toInt_patternNumber]

theorem lineType_embeds : lineType.Embeds rawLineType LineType.raw := by
  have hpattern : (Record.field "pattern" Json.uint8).Embeds
      (Record.field "pattern" Json.int32) patternNumber :=
    Record.Embeds.fieldOr _ _ pattern_embeds patternNumber_injective
  have hspace : (Record.optionalField "space_percent" Json.real).Embeds
      (Record.optionalField "space_percent" Json.real) id :=
    Record.Embeds.fieldOr _ _ (Reader.Embeds.refl _) Function.injective_id
  apply Record.Embeds.read
  refine ⟨rfl, ⟨?_, ?_⟩, ?_, ?_⟩
  · exact (hpattern.checked.1.map _).seq hspace.checked.1
  · exact (hpattern.checked.2.map _).seq hspace.checked.2
  · rintro acc ms ⟨pattern, space⟩
    simp [Record.ofMembers_seq, Record.ofMembers_map, LineType.raw, hpattern.ofMembers]
  · rintro expected expected' acc closed i items ⟨pattern, space⟩ rest
    simp [Record.ofItems_seq, Record.ofItems_map, LineType.raw,
      hpattern.ofItems expected expected', hspace.ofItems expected expected']

theorem style_embeds : style.Embeds rawStyle Style.raw := by
  have hpen : (Record.optionalField "pen" pen).Embeds
      (Record.optionalField "pen" Json.int32) (Option.map Pen.number) :=
    Record.Embeds.fieldOr _ _ pen_embeds.optional (Option.map_injective Pen.number_injective)
  have hline : (Record.optionalField "line_type" lineType).Embeds
      (Record.optionalField "line_type" rawLineType) (Option.map LineType.raw) :=
    Record.Embeds.fieldOr _ _ lineType_embeds.optional
      (Option.map_injective LineType.raw_injective)
  have hfill : (Record.optionalField "fill" fill).Embeds (Record.optionalField "fill" fill) id :=
    Record.Embeds.fieldOr _ _ (Reader.Embeds.refl _) Function.injective_id
  apply Record.Embeds.read
  refine ⟨rfl, ⟨?_, ?_⟩, ?_, ?_⟩
  · exact ((hpen.checked.1.map _).seq hline.checked.1).seq hfill.checked.1
  · exact ((hpen.checked.2.map _).seq hline.checked.2).seq hfill.checked.2
  · rintro acc ms ⟨p, l, f⟩
    simp [Record.ofMembers_seq, Record.ofMembers_map, Style.raw, hpen.ofMembers, hline.ofMembers]
  · rintro expected expected' acc closed i items ⟨p, l, f⟩ rest
    simp [Record.ofItems_seq, Record.ofItems_map, Style.raw, hpen.ofItems expected expected',
      hline.ofItems expected expected', hfill.ofItems expected expected']

end Document

/-! ## The check -/

/-- **The check takes the line pattern.** -/
def Style.InRange (s : Style) : Prop := ∀ l ∈ s.lineType, l.pattern.toNat ≤ 6

instance (s : Style) : Decidable s.InRange :=
  inferInstanceAs (Decidable (∀ l ∈ s.lineType, l.pattern.toNat ≤ 6))

theorem mapM_eq_ok_raw {α β ε : Type} {check : α → Except ε β} {raw : β → α} {P : β → Prop}
    (h : ∀ {a b}, check a = .ok b ↔ a = raw b ∧ P b) {a? : Option α} {b? : Option β} :
    a?.mapM check = .ok b? ↔ a? = b?.map raw ∧ ∀ b ∈ b?, P b := by
  cases a? with
  | none =>
    cases b? with
    | none => exact iff_of_true rfl ⟨rfl, nofun⟩
    | some b => exact iff_of_false nofun nofun
  | some a =>
    rw [Option.mapM_some]
    refine Json.map_eq_ok.trans ?_
    simp only [h]
    cases b? with
    | none => exact iff_of_false nofun nofun
    | some b => simp

theorem Pen.ofSlot_eq_ok_number {n : Int32} {p : Pen} :
    Pen.ofSlot n = .ok p ↔ n = p.number ∧ True := by
  rw [Pen.ofSlot_eq_ok, and_true, ← p.toInt_number, Int32.toInt_inj]

theorem LineType.ofPattern_eq_ok_raw {r : RawLineType} {l : LineType} :
    LineType.ofPattern r.pattern r.spacePercent = .ok l ↔ r = l.raw ∧ l.pattern.toNat ≤ 6 := by
  obtain ⟨n, space⟩ := r
  rw [LineType.ofPattern_eq_ok, ← toInt_patternNumber, Int32.toInt_inj, LineType.raw,
    RawLineType.mk.injEq, eq_comm (a := space)]
  tauto

/-- **The unchecked styles that pass the check**, and what they become. -/
theorem RawStyle.validate_eq_ok {r : RawStyle} {s : Style} :
    r.validate = .ok s ↔ r = s.raw ∧ s.InRange := by
  obtain ⟨p, l, f⟩ := r
  obtain ⟨p', l', f'⟩ := s
  unfold RawStyle.validate
  simp only [Json.bind_eq_ok, mapM_eq_ok_raw Pen.ofSlot_eq_ok_number,
    mapM_eq_ok_raw LineType.ofPattern_eq_ok_raw, Style.raw, RawStyle.mk.injEq]
  constructor
  · rintro ⟨p, ⟨rfl, -⟩, l, ⟨rfl, hl⟩, h⟩
    obtain ⟨rfl, rfl, rfl⟩ := Style.mk.inj (Except.ok.inj h)
    exact ⟨⟨rfl, rfl, rfl⟩, hl⟩
  · rintro ⟨⟨rfl, rfl, rfl⟩, hl⟩
    exact ⟨p', ⟨rfl, fun _ _ => trivial⟩, l', ⟨rfl, hl⟩, rfl⟩

/-- The check refuses a pattern out of range; every pen of a style passes it. -/
theorem Style.validate_raw_eq_error {s : Style} {l : LineType} (hl : s.lineType = some l)
    (h : 6 < l.pattern.toNat) :
    s.raw.validate = .error (.lineTypeOutOfRange (patternNumber l.pattern)) := by
  have hpen : (s.pen.map Pen.number).mapM Pen.ofSlot = .ok s.pen :=
    (mapM_eq_ok_raw Pen.ofSlot_eq_ok_number).mpr ⟨rfl, fun _ _ => trivial⟩
  have hpattern : LineType.ofPattern (patternNumber l.pattern) l.spacePercent =
      .error (.lineTypeOutOfRange (patternNumber l.pattern)) := by
    simp only [LineType.ofPattern, toInt_patternNumber]
    exact if_neg (by omega)
  unfold RawStyle.validate
  simp only [Style.raw, hpen, hl, Option.map_some, LineType.raw, Option.mapM_some, hpattern]
  rfl

/-! ## Texts -/

/-- **The two ways to read a style**: a text is read as a style exactly if it is read as the
unchecked form of that style. What is read so, and has a pattern in `0..6` if it has one, is exactly
what the unchecked form gives that passes the check, and the check refuses every other pattern. -/
theorem style_read_iff (text : String) (s : Style) :
    (Json.read Document.style text = .ok s ↔ Json.read Document.rawStyle text = .ok s.raw) ∧
    ((Json.read Document.style text = .ok s ∧ s.InRange) ↔
      ∃ r, Json.read Document.rawStyle text = .ok r ∧ r.validate = .ok s) ∧
    (¬ s.InRange → ∃ l, s.lineType = some l ∧
      s.raw.validate = .error (.lineTypeOutOfRange (patternNumber l.pattern))) := by
  have hread := Document.style_embeds.read text s
  refine ⟨hread, ?_, ?_⟩
  · simp [hread, RawStyle.validate_eq_ok]
  · intro h
    simp only [Style.InRange, not_forall, not_le] at h
    obtain ⟨l, hl, hpattern⟩ := h
    exact ⟨l, hl, Style.validate_raw_eq_error hl hpattern⟩

/-- **A pattern that only one of them takes.** -/
theorem style_read_pattern :
    let text := "\x7b\"line_type\":\x7b\"pattern\":7\x7d\x7d"
    Json.read Document.style text = .ok ⟨none, some ⟨7, none⟩, none⟩ ∧
    (∀ r, Json.read Document.rawStyle text = .ok r →
      r.validate = .error (.lineTypeOutOfRange 7)) ∧
    (Refusal.lineTypeOutOfRange 7).message =
      "line type 7 is not a valid pattern (expected 0-6)" := by
  intro text
  have hraw : Json.read Document.rawStyle text = .ok ⟨none, some ⟨7, none⟩, none⟩ :=
    Json.eq_ok_of_toOption (by decide +kernel)
  refine ⟨Json.eq_ok_of_toOption (by decide +kernel), fun r hr => ?_, by decide⟩
  obtain rfl := Except.ok.inj (hraw.symm.trans hr)
  decide

end HpGl
