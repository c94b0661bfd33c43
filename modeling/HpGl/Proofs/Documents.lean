import HpGl.Document.Job
import HpGl.Proofs.Acceptance
import HpGl.Proofs.Json.Finite
import HpGl.Proofs.Json.Reading

/-!
# Documents are read back

Every type that is written as a document is read back from it. Its members are in the order of its
fields, left out or `null` where they are unset, and an alternative begins with its tag, so nothing
depends on the values but their doubles: those must be finite, since `null` is written for others,
and the reader must get the nearest double from their digits.

* `Point.doubles`, `Operation.doubles`, `Job.doubles` and so on: the doubles of a value.
* `RoundTrips`: a reader takes back what is written, and finds finite doubles only.
* `point_roundTrips` to `job_roundTrips`: the types, from the smaller to the larger.
* `Kind`: the types together.
* **`Kind.read_render_of_isShort`**, **`document_round_trip`**: their texts.
-/

namespace HpGl

/-! ## The doubles of a value -/

/-- The doubles of a point. -/
def Point.doubles (p : Point) : List Float := [p.x, p.y]

/-- The doubles of a polygon. -/
def Polygon.doubles (p : Polygon) : List Float := p.vertices.flatMap Point.doubles

/-- The doubles of a line pattern. -/
def LineType.doubles (t : LineType) : List Float := t.spacePercent.toList

/-- The doubles of an unchecked line pattern. -/
def RawLineType.doubles (t : RawLineType) : List Float := t.spacePercent.toList

/-- The doubles of a fill. -/
def Fill.doubles : Fill → List Float
  | hatch s a | crossHatch s a => [s, a]
  | solid | solidUnidirectional => []

/-- The doubles of options. -/
def Options.doubles (o : Options) : List Float := o.resolution.toList ++ o.fill.doubles

/-- The doubles of a style. -/
def Style.doubles (s : Style) : List Float :=
  s.lineType.toList.flatMap LineType.doubles ++ s.fill.toList.flatMap Fill.doubles

/-- The doubles of an unchecked style. -/
def RawStyle.doubles (s : RawStyle) : List Float :=
  s.lineType.toList.flatMap RawLineType.doubles ++ s.fill.toList.flatMap Fill.doubles

/-- The doubles of settings. -/
def Config.doubles (c : Config) : List Float := [c.scale]

/-- The doubles of an operation. -/
def Operation.doubles : Operation → List Float
  | pen _ | rotate _ | park | raw _ => []
  | lineType _ space => space.toList
  | fillType _ spacing angle => spacing.toList ++ angle.toList
  | style s => s.doubles
  | speed v => [v]
  | sendTo p | drawTo p => p.doubles
  | line a b => a.doubles ++ b.doubles
  | lines ps | polygon ps => ps.flatMap Point.doubles
  | circle c d res => c.doubles ++ d :: res.toList
  | fillCircle c d f res => c.doubles ++ d :: f.doubles ++ res.toList
  | wedge c d a b res | arc c d a b res => c.doubles ++ d :: a :: b :: res.toList
  | fillWedge c d a b f res => c.doubles ++ d :: a :: b :: f.doubles ++ res.toList
  | rectangle p w h => p.doubles ++ [w, h]
  | fillRectangle p w h f => p.doubles ++ w :: h :: f.doubles
  | fillPolygon ps f => ps.flatMap Point.doubles ++ f.doubles
  | label _ p size => p.doubles ++ [size]

/-- The doubles of a job. -/
def Job.doubles (j : Job) : List Float :=
  j.plotter.toList.flatMap Config.doubles ++ j.operations.flatMap Operation.doubles

namespace Document

open Json (Reader Record Variant Value ReadsNearest)
open Json.Value (Legible ItemsLegible MembersLegible)

/-! ## Members -/

section Members

variable {α : Type} {r : Reader α} {d : ℕ} {toValue : α → Value} {o : Option α}

theorem forall_mem_flatMap {β : Type} {p : β → Prop} {f : α → List β} {as : List α} :
    (∀ b ∈ as.flatMap f, p b) ↔ ∀ a ∈ as, ∀ b ∈ f a, p b := by
  simp only [List.mem_flatMap]
  exact ⟨fun h a ha b hb => h b ⟨a, ha, hb⟩, fun h b ⟨a, ha, hb⟩ => h a ha b hb⟩

theorem forall_mem_toList {p : α → Prop} : (∀ a ∈ o.toList, p a) ↔ ∀ a ∈ o, p a := by
  simp only [Option.mem_toList, Option.mem_def]

@[simp]
theorem itemsLegible_map {as : List α} :
    ItemsLegible (as.map toValue) ↔ ∀ a ∈ as, (toValue a).Legible := by
  induction as with
  | nil => exact ⟨fun _ => nofun, fun _ => trivial⟩
  | cons a as ih => rw [List.map_cons, ItemsLegible, ih, List.forall_mem_cons]

@[simp]
theorem membersLegible_append {ms ns : List (String × Value)} :
    MembersLegible (ms ++ ns) ↔ MembersLegible ms ∧ MembersLegible ns := by
  induction ms with
  | nil => exact (iff_of_eq (true_and _)).symm
  | cons m ms ih => rw [List.cons_append, MembersLegible, MembersLegible, ih, and_assoc]

@[simp]
theorem membersLegible_ifSet {name : String} :
    MembersLegible (ifSet name toValue o) ↔ ∀ a ∈ o, (toValue a).Legible := by
  cases o <;> simp [ifSet, MembersLegible]

@[simp]
theorem legible_nullable : (nullable toValue o).Legible ↔ ∀ a ∈ o, (toValue a).Legible := by
  cases o <;> simp [nullable, Legible]

theorem fits_ifSet {name : String} (h : ∀ a, Json.Reads r d (toValue a) a)
    (hv : ∀ a, (toValue a).scan ≠ .null) :
    (Record.optionalField name r).Fits d (ifSet name toValue o) o := by
  cases o with
  | none => exact .absent name none
  | some a => exact .present name _ ((h a).optional_some (hv a))

theorem fits_nullable {name : String} (h : ∀ a, Json.Reads r d (toValue a) a)
    (hv : ∀ a, (toValue a).scan ≠ .null) :
    (Record.optionalField name r).Fits d [(name, nullable toValue o)] o := by
  cases o with
  | none => exact .present name _ .optional_none
  | some a => exact .present name _ ((h a).optional_some (hv a))

end Members

/-! ## Types that are read back -/

/-- **What is written is read back.** A document is read as the value it was written for, with room
for `depth` arrays and objects inside each other; its numbers can be read if and only if the doubles
of the value can; and whatever is read, from any text, holds finite doubles only. -/
structure RoundTrips {α : Type} (r : Reader α) (toValue : α → Value) (doubles : α → List Float)
    (depth : ℕ) : Prop where
  reads : ∀ a, Json.Reads r depth (toValue a) a
  legible : ∀ a, (toValue a).Legible ↔ ∀ x ∈ doubles a, x.isFinite = true ∧ ReadsNearest x
  yields : r.Yields fun a => ∀ x ∈ doubles a, x.isFinite = true

theorem RoundTrips.list {α : Type} {r : Reader α} {toValue : α → Value} {doubles : α → List Float}
    {d : ℕ} (h : RoundTrips r toValue doubles d) :
    RoundTrips (Json.list r) (fun as => .array (as.map toValue)) (·.flatMap doubles) (d + 1) where
  reads _ := .list fun a _ => h.reads a
  legible _ := by simp only [Legible, itemsLegible_map, h.legible, forall_mem_flatMap]
  yields := h.yields.list.mono fun _ has => forall_mem_flatMap.mpr has

variable {d : ℕ}

/-! ## Points -/

theorem point_roundTrips : RoundTrips point pointValue Point.doubles (d + 1) where
  reads := fun ⟨x, y⟩ =>
    Record.Fits.read (.seq (.map Point.mk (.present "x" none (.real x)))
      (.present "y" none (.real y)) (by decide)) _
  legible _ := by simp [pointValue, Point.doubles, Legible, MembersLegible]
  yields := by
    refine Record.Yields.read (.seq (.map ?_ (.field _ .real)) (.field _ .real)) _
    intro x hx y hy
    simp [Point.doubles, hx, hy]

theorem points_roundTrips :
    RoundTrips (Json.list point) pointsValue (·.flatMap Point.doubles) (d + 2) :=
  point_roundTrips.list

theorem polygon_roundTrips : RoundTrips polygon polygonValue Polygon.doubles (d + 3) where
  reads := fun ⟨ps⟩ =>
    Record.Fits.read (.map Polygon.mk (.present "vertices" none (points_roundTrips.reads ps))) _
  legible p := by
    have hpoints := (points_roundTrips (d := 0)).legible p.vertices
    simp only [polygonValue, Legible, MembersLegible, hpoints, and_true, Polygon.doubles]
  yields := by
    refine Record.Yields.read (.map ?_ (.field _ (points_roundTrips (d := 0)).yields)) _
    exact fun _ h => h

/-! ## Pens and lines -/

@[simp]
theorem int32Value_legible (n : Int32) : (int32Value n).Legible := by
  have hlo := n.le_toInt
  have hhi := n.toInt_lt
  change -0x8000000000000000 ≤ n.toInt ∧ n.toInt < 0x10000000000000000
  omega

@[simp]
theorem penValue_legible (p : Pen) : (penValue p).Legible := by
  have hle := p.slot_le
  change -0x8000000000000000 ≤ (p.slot : ℤ) ∧ (p.slot : ℤ) < 0x10000000000000000
  omega

theorem pen_roundTrips : RoundTrips pen penValue (fun _ => []) d where
  reads p := by
    have hle := p.slot_le
    obtain ⟨n, hn⟩ : ∃ n : Int32, n.toInt = p.slot :=
      ⟨Int32.ofInt p.slot, Int32.toInt_ofInt_of_le (by omega) (by omega)⟩
    have hvalue : penValue p = .integer n.toInt := congrArg Value.integer hn.symm
    refine ⟨fun hacc => ?_, fun _ => rfl⟩
    rw [hvalue, pen, (Json.Reads.int32 n).read hacc]
    simp only [bind, Except.bind, Pen.ofSlot_eq_ok.mpr hn]
    rfl
  legible p := by simp
  yields := .mono (fun _ _ _ h => by cases h) (.any pen)

theorem lineType_roundTrips : RoundTrips lineType lineTypeValue LineType.doubles (d + 1) where
  reads := fun ⟨pattern, space⟩ =>
    Record.Fits.read (.seq (.map LineType.mk (.present "pattern" none (.uint8 pattern)))
      (fits_ifSet .real fun _ => nofun) (by decide)) _
  legible t := by
    have hlt := t.pattern.toNat_lt
    have hpattern : (Value.integer t.pattern.toNat).Legible := ⟨by omega, by omega⟩
    simp only [lineTypeValue, LineType.doubles, Legible, MembersLegible, membersLegible_ifSet,
      forall_mem_toList]
    exact and_iff_right hpattern
  yields := by
    refine Record.Yields.read (.seq (.map ?_ (.field _ (.any _))) (.optionalField _ .real)) _
    exact fun _ _ _ hspace => forall_mem_toList.mpr hspace

theorem rawLineType_roundTrips :
    RoundTrips rawLineType rawLineTypeValue RawLineType.doubles (d + 1) where
  reads := fun ⟨pattern, space⟩ =>
    Record.Fits.read (.seq (.map RawLineType.mk (.present "pattern" none (.int32 pattern)))
      (fits_ifSet .real fun _ => nofun) (by decide)) _
  legible t := by
    simp only [rawLineTypeValue, RawLineType.doubles, Legible, MembersLegible, membersLegible_ifSet,
      int32Value_legible, true_and, forall_mem_toList]
  yields := by
    refine Record.Yields.read (.seq (.map ?_ (.field _ (.any _))) (.optionalField _ .real)) _
    exact fun _ _ _ hspace => forall_mem_toList.mpr hspace

/-! ## Fills, options and styles -/

theorem fill_roundTrips : RoundTrips fill fillValue Fill.doubles (d + 1) where
  reads f := by
    cases f with
    | solid => exact .unit rfl
    | solidUnidirectional => exact .unit rfl
    | hatch s a =>
      exact .record rfl (by decide) (.seq (.map Fill.hatch (.present "spacing" none (.real s)))
        (.present "angle" none (.real a)) (by decide))
    | crossHatch s a =>
      exact .record rfl (by decide) (.seq (.map Fill.crossHatch (.present "spacing" none (.real s)))
        (.present "angle" none (.real a)) (by decide))
  legible f := by cases f <;> simp [fillValue, Fill.doubles, Legible, MembersLegible]
  yields := by
    have hatching (f : Float → Float → Fill) (hf : ∀ s a, (f s a).doubles = [s, a]) :
        (hatchingRecord f).Yields fun f => ∀ x ∈ f.doubles, x.isFinite = true := by
      refine .seq (.map ?_ (.field _ .real)) (.field _ .real)
      intro s hs a ha
      simp [hf, hs, ha]
    refine Reader.Yields.tagged ?_
    simp only [fillVariants, List.forall_mem_cons]
    exact ⟨.unit _ nofun, .unit _ nofun, .record _ _ (hatching _ fun _ _ => rfl),
      .record _ _ (hatching _ fun _ _ => rfl), nofun⟩

theorem fillValue_scan_ne (f : Fill) : (fillValue f).scan ≠ .null := by
  cases f <;> exact nofun

theorem fits_fill (f : Fill) : fillField.Fits (d + 1) [("fill", fillValue f)] f :=
  .present "fill" _ (fill_roundTrips.reads f)

theorem fillField_yields : fillField.Yields fun f => ∀ x ∈ f.doubles, x.isFinite = true := by
  refine .fieldOr _ (fill_roundTrips (d := 0)).yields fun f hf => ?_
  obtain rfl := Option.some.inj hf
  exact nofun

theorem options_roundTrips : RoundTrips options optionsValue Options.doubles (d + 2) where
  reads := fun ⟨resolution, f⟩ =>
    Record.Fits.read (.seq (.map Options.mk (fits_ifSet .real fun _ => nofun)) (fits_fill f)
      (by decide)) _
  legible o := by
    simp only [optionsValue, Options.doubles, Legible, MembersLegible, membersLegible_append,
      membersLegible_ifSet, (fill_roundTrips (d := 0)).legible, and_true, List.forall_mem_append,
      forall_mem_toList]
  yields := by
    refine Record.Yields.read (.seq (.map ?_ (.optionalField _ .real)) fillField_yields) _
    exact fun _ hres _ hfill => List.forall_mem_append.mpr ⟨forall_mem_toList.mpr hres, hfill⟩

theorem style_roundTrips : RoundTrips style styleValue Style.doubles (d + 2) where
  reads := fun ⟨p, l, f⟩ =>
    Record.Fits.read (.seq (.seq (.map Style.mk
      (fits_ifSet pen_roundTrips.reads fun _ => nofun))
      (fits_ifSet lineType_roundTrips.reads fun _ => nofun) (by decide))
      (fits_ifSet fill_roundTrips.reads fillValue_scan_ne) (by decide)) _
  legible s := by
    simp only [styleValue, Style.doubles, Legible, membersLegible_append, membersLegible_ifSet,
      penValue_legible, implies_true, true_and, (lineType_roundTrips (d := 0)).legible,
      (fill_roundTrips (d := 0)).legible, List.forall_mem_append, forall_mem_flatMap,
      forall_mem_toList]
  yields := by
    refine Record.Yields.read (.seq (.seq (.map ?_ (.optionalField _ (.any pen)))
      (.optionalField _ (lineType_roundTrips (d := 0)).yields))
      (.optionalField _ (fill_roundTrips (d := 0)).yields)) _
    intro p _ l hl f hf
    simp only [Style.doubles, List.forall_mem_append, forall_mem_flatMap, forall_mem_toList]
    exact ⟨hl, hf⟩

theorem rawStyle_roundTrips : RoundTrips rawStyle rawStyleValue RawStyle.doubles (d + 2) where
  reads := fun ⟨p, l, f⟩ =>
    Record.Fits.read (.seq (.seq (.map RawStyle.mk
      (fits_ifSet .int32 fun _ => nofun))
      (fits_ifSet rawLineType_roundTrips.reads fun _ => nofun) (by decide))
      (fits_ifSet fill_roundTrips.reads fillValue_scan_ne) (by decide)) _
  legible s := by
    simp only [rawStyleValue, RawStyle.doubles, Legible, membersLegible_append,
      membersLegible_ifSet, int32Value_legible, implies_true, true_and,
      (rawLineType_roundTrips (d := 0)).legible, (fill_roundTrips (d := 0)).legible,
      List.forall_mem_append, forall_mem_flatMap, forall_mem_toList]
  yields := by
    refine Record.Yields.read (.seq (.seq (.map ?_ (.optionalField _ (.any _)))
      (.optionalField _ (rawLineType_roundTrips (d := 0)).yields))
      (.optionalField _ (fill_roundTrips (d := 0)).yields)) _
    intro p _ l hl f hf
    simp only [RawStyle.doubles, List.forall_mem_append, forall_mem_flatMap, forall_mem_toList]
    exact ⟨hl, hf⟩

/-! ## Settings -/

theorem bounds_roundTrips : RoundTrips bounds boundsValue (fun _ => []) (d + 1) where
  reads := fun ⟨x₀, y₀, x₁, y₁⟩ =>
    Record.Fits.read (.seq (.seq (.seq (.map Bounds.mk (.present "x_min" none (.int32 x₀)))
      (.present "y_min" none (.int32 y₀)) (by decide))
      (.present "x_max" none (.int32 x₁)) (by decide))
      (.present "y_max" none (.int32 y₁)) (by decide)) _
  legible b := by simp [boundsValue, Legible, MembersLegible]
  yields := .mono (fun _ _ => nofun) (.any bounds)

theorem config_roundTrips : RoundTrips config configValue Config.doubles (d + 2) where
  reads := fun ⟨b, scale, debug⟩ =>
    Record.Fits.read (.seq (.seq (.map Config.mk
      (.present "bounds" none (bounds_roundTrips.reads b)))
      (.present "scale" none (.real scale)) (by decide))
      (.present "debug" (some false) (.boolean debug)) (by decide)) _
  legible c := by
    simp [configValue, Config.doubles, Legible, MembersLegible,
      (bounds_roundTrips (d := 0)).legible]
  yields := by
    refine Record.Yields.read (.seq (.seq (.map ?_ (.field _ (.any bounds))) (.field _ .real))
      (.fieldOr _ (.any _) fun _ _ => trivial)) _
    intro b _ scale hscale debug _
    simpa [Config.doubles] using hscale

/-! ## Operations and jobs -/

section Fields

theorem fits_point (name : String) (p : Point) :
    (Record.field name point).Fits (d + 1) [(name, pointValue p)] p :=
  .present name none (point_roundTrips.reads p)

theorem fits_points (name : String) (ps : List Point) :
    (Record.field name (Json.list point)).Fits (d + 2) [(name, pointsValue ps)] ps :=
  .present name none (points_roundTrips.reads ps)

theorem fits_real (name : String) (x : Float) :
    (Record.field name Json.real).Fits d [(name, .real x)] x :=
  .present name none (.real x)

theorem fits_int32 (name : String) (n : Int32) :
    (Record.field name Json.int32).Fits d [(name, int32Value n)] n :=
  .present name none (.int32 n)

theorem fits_nullableReal (name : String) (o : Option Float) :
    (Record.optionalField name Json.real).Fits d [(name, nullableReal o)] o :=
  fits_nullable .real fun _ => nofun

end Fields

/-- Each operation is found by its name, and its members are those of its fields, in their order. -/
theorem operation_reads (o : Operation) : Json.Reads operation (d + 3) (operationValue o) o := by
  cases o with
  | pen slot => exact .record rfl (by decide) (.map Operation.pen (fits_int32 "slot" slot))
  | lineType pattern space =>
    exact .record rfl (by decide) (.seq
      (.map Operation.lineType (fits_nullable .int32 fun _ => nofun))
      (fits_nullableReal "space" space) (by decide))
  | fillType model spacing angle =>
    exact .record rfl (by decide) (.seq (.seq (.map Operation.fillType (fits_int32 "model" model))
      (fits_nullableReal "spacing" spacing) (by decide))
      (fits_nullableReal "angle" angle) (by decide))
  | style s =>
    exact .record rfl (by decide)
      (.map Operation.style (.present "style" (some default) (rawStyle_roundTrips.reads s)))
  | rotate theta => exact .record rfl (by decide) (.map Operation.rotate (fits_int32 "theta" theta))
  | speed v => exact .record rfl (by decide) (.map Operation.speed (fits_real "cm_per_s" v))
  | sendTo p => exact .record rfl (by decide) (.map Operation.sendTo (fits_point "at" p))
  | line a b =>
    exact .record rfl (by decide) (.seq (.map Operation.line (fits_point "from" a))
      (fits_point "to" b) (by decide))
  | drawTo p => exact .record rfl (by decide) (.map Operation.drawTo (fits_point "at" p))
  | lines ps => exact .record rfl (by decide) (.map Operation.lines (fits_points "points" ps))
  | circle c diameter res =>
    exact .record rfl (by decide) (.seq (.seq (.map Operation.circle (fits_point "center" c))
      (fits_real "diameter" diameter) (by decide))
      (fits_nullableReal "resolution" res) (by decide))
  | fillCircle c diameter f res =>
    exact .record rfl (by decide) (.seq (.seq (.seq
      (.map Operation.fillCircle (fits_point "center" c))
      (fits_real "diameter" diameter) (by decide))
      (fits_fill f) (by decide))
      (fits_nullableReal "resolution" res) (by decide))
  | wedge c diameter start sweep res =>
    exact .record rfl (by decide) (.seq (.seq (.seq (.seq
      (.map Operation.wedge (fits_point "center" c))
      (fits_real "diameter" diameter) (by decide))
      (fits_real "start" start) (by decide))
      (fits_real "sweep" sweep) (by decide))
      (fits_nullableReal "resolution" res) (by decide))
  | fillWedge c diameter start sweep f res =>
    exact .record rfl (by decide) (.seq (.seq (.seq (.seq (.seq
      (.map Operation.fillWedge (fits_point "center" c))
      (fits_real "diameter" diameter) (by decide))
      (fits_real "start" start) (by decide))
      (fits_real "sweep" sweep) (by decide))
      (fits_fill f) (by decide))
      (fits_nullableReal "resolution" res) (by decide))
  | arc c size start stop res =>
    exact .record rfl (by decide) (.seq (.seq (.seq (.seq
      (.map Operation.arc (fits_point "center" c))
      (fits_real "size" size) (by decide))
      (fits_real "start" start) (by decide))
      (fits_real "end" stop) (by decide))
      (fits_nullableReal "resolution" res) (by decide))
  | rectangle p w h =>
    exact .record rfl (by decide) (.seq (.seq (.map Operation.rectangle (fits_point "corner" p))
      (fits_real "width" w) (by decide))
      (fits_real "height" h) (by decide))
  | fillRectangle p w h f =>
    exact .record rfl (by decide) (.seq (.seq (.seq
      (.map Operation.fillRectangle (fits_point "corner" p))
      (fits_real "width" w) (by decide))
      (fits_real "height" h) (by decide))
      (fits_fill f) (by decide))
  | polygon ps => exact .record rfl (by decide) (.map Operation.polygon (fits_points "points" ps))
  | fillPolygon ps f =>
    exact .record rfl (by decide) (.seq (.map Operation.fillPolygon (fits_points "points" ps))
      (fits_fill f) (by decide))
  | label text p size =>
    exact .record rfl (by decide) (.seq (.seq
      (.map Operation.label (.present "text" none (.string text)))
      (fits_point "at" p) (by decide))
      (fits_real "size" size) (by decide))
  | park => exact .unit rfl
  | raw text =>
    exact .record rfl (by decide) (.map Operation.raw (.present "hpgl" none (.string text)))

theorem operationValue_legible (o : Operation) :
    (operationValue o).Legible ↔ ∀ x ∈ o.doubles, x.isFinite = true ∧ ReadsNearest x := by
  have hpoint := (point_roundTrips (d := 0)).legible
  have hpoints := (points_roundTrips (d := 0)).legible
  have hfill := (fill_roundTrips (d := 0)).legible
  have hstyle := (rawStyle_roundTrips (d := 0)).legible
  cases o <;> simp only [operationValue, operationMembers, Operation.doubles, Legible,
    MembersLegible, nullableReal, legible_nullable, hpoint, hpoints, hfill, hstyle,
    int32Value_legible, List.forall_mem_append, List.forall_mem_cons, forall_mem_toList,
    List.not_mem_nil, IsEmpty.forall_iff, implies_true, true_and, and_true, and_assoc]

theorem operation_yields : operation.Yields fun o => ∀ x ∈ o.doubles, x.isFinite = true := by
  have hreal {name : String} := Record.Yields.field name .real
  have hrealOr {name : String} := Record.Yields.optionalField name .real
  have hpoint {name : String} := Record.Yields.field name (point_roundTrips (d := 0)).yields
  have hpoints {name : String} := Record.Yields.field name (points_roundTrips (d := 0)).yields
  have hstyle : (Record.fieldOr "style" (some default) rawStyle).Yields fun s =>
      ∀ x ∈ s.doubles, x.isFinite = true := by
    refine .fieldOr _ (rawStyle_roundTrips (d := 0)).yields fun s hs => ?_
    obtain rfl := Option.some.inj hs
    exact nofun
  have any {α : Type} {name : String} (r : Reader α) := Record.Yields.field name (.any r)
  refine Reader.Yields.tagged ?_
  simp only [operationVariants, List.forall_mem_cons]
  -- in the order of the alternatives; what is left open is that their doubles come from the fields
  refine ⟨.record _ _ (.map ?_ (any _)),
    .record _ _ (.seq (.map ?_ (.optionalField _ (.any _))) hrealOr),
    .record _ _ (.seq (.seq (.map ?_ (any _)) hrealOr) hrealOr),
    .record _ _ (.map ?_ hstyle),
    .record _ _ (.map ?_ (any _)),
    .record _ _ (.map ?_ hreal),
    .record _ _ (.map ?_ hpoint),
    .record _ _ (.seq (.map ?_ hpoint) hpoint),
    .record _ _ (.map ?_ hpoint),
    .record _ _ (.map ?_ hpoints),
    .record _ _ (.seq (.seq (.map ?_ hpoint) hreal) hrealOr),
    .record _ _ (.seq (.seq (.seq (.map ?_ hpoint) hreal) fillField_yields) hrealOr),
    .record _ _ (.seq (.seq (.seq (.seq (.map ?_ hpoint) hreal) hreal) hreal) hrealOr),
    .record _ _ (.seq (.seq (.seq (.seq (.seq (.map ?_ hpoint) hreal) hreal) hreal)
      fillField_yields) hrealOr),
    .record _ _ (.seq (.seq (.seq (.seq (.map ?_ hpoint) hreal) hreal) hreal) hrealOr),
    .record _ _ (.seq (.seq (.map ?_ hpoint) hreal) hreal),
    .record _ _ (.seq (.seq (.seq (.map ?_ hpoint) hreal) hreal) fillField_yields),
    .record _ _ (.map ?_ hpoints),
    .record _ _ (.seq (.map ?_ hpoints) fillField_yields),
    .record _ _ (.seq (.seq (.map ?_ (any _)) hpoint) hreal),
    .unit _ ?_,
    .record _ _ (.map ?_ (any _)), nofun⟩
  all_goals
    simp only [Operation.doubles, List.forall_mem_append, List.forall_mem_cons, forall_mem_toList,
      List.not_mem_nil, IsEmpty.forall_iff, implies_true, and_true] <;>
    tauto

theorem operation_roundTrips :
    RoundTrips operation operationValue Operation.doubles (d + 3) where
  reads := operation_reads
  legible := operationValue_legible
  yields := operation_yields

theorem job_roundTrips : RoundTrips job jobValue Job.doubles (d + 5) where
  reads := fun ⟨plotter, operations⟩ =>
    Record.Fits.read (.seq (.map Job.mk (fits_ifSet config_roundTrips.reads fun _ => nofun))
      (.present "operations" none (operation_roundTrips.list.reads operations)) (by decide)) _
  legible j := by
    simp only [jobValue, Job.doubles, Legible, MembersLegible, membersLegible_append,
      membersLegible_ifSet, itemsLegible_map, (config_roundTrips (d := 0)).legible,
      operationValue_legible, and_true, List.forall_mem_append, forall_mem_flatMap,
      forall_mem_toList]
  yields := by
    refine Record.Yields.read (.seq
      (.map ?_ (.optionalField _ (config_roundTrips (d := 0)).yields))
      (.field _ operation_yields.list)) _
    intro plotter hplotter operations hoperations
    simp only [Job.doubles, List.forall_mem_append, forall_mem_flatMap, forall_mem_toList]
    exact ⟨hplotter, hoperations⟩

/-! ## All types -/

/-- The types that are written as documents. -/
inductive Kind where
  | pen
  | lineType
  | rawLineType
  | fill
  | options
  | style
  | rawStyle
  | point
  | polygon
  | bounds
  | config
  | operation
  | job

namespace Kind

/-- The values of a type. -/
abbrev Carrier : Kind → Type
  | pen => Pen
  | lineType => LineType
  | rawLineType => RawLineType
  | fill => Fill
  | options => Options
  | style => Style
  | rawStyle => RawStyle
  | point => Point
  | polygon => Polygon
  | bounds => Bounds
  | config => Config
  | operation => Operation
  | job => Job

/-- What is written for a value. -/
def toValue : (k : Kind) → k.Carrier → Value
  | pen => penValue
  | lineType => lineTypeValue
  | rawLineType => rawLineTypeValue
  | fill => fillValue
  | options => optionsValue
  | style => styleValue
  | rawStyle => rawStyleValue
  | point => pointValue
  | polygon => polygonValue
  | bounds => boundsValue
  | config => configValue
  | operation => operationValue
  | job => jobValue

/-- How a value is read. -/
def reader : (k : Kind) → Reader k.Carrier
  | pen => Document.pen
  | lineType => Document.lineType
  | rawLineType => Document.rawLineType
  | fill => Document.fill
  | options => Document.options
  | style => Document.style
  | rawStyle => Document.rawStyle
  | point => Document.point
  | polygon => Document.polygon
  | bounds => Document.bounds
  | config => Document.config
  | operation => Document.operation
  | job => Document.job

/-- The doubles of a value; pens and areas have none. -/
def doubles : (k : Kind) → k.Carrier → List Float
  | pen | bounds => fun _ => []
  | lineType => LineType.doubles
  | rawLineType => RawLineType.doubles
  | fill => Fill.doubles
  | options => Options.doubles
  | style => Style.doubles
  | rawStyle => RawStyle.doubles
  | point => Point.doubles
  | polygon => Polygon.doubles
  | config => Config.doubles
  | operation => Operation.doubles
  | job => Job.doubles

theorem roundTrips : ∀ k : Kind, RoundTrips k.reader k.toValue k.doubles 5
  | pen => pen_roundTrips
  | lineType => lineType_roundTrips
  | rawLineType => rawLineType_roundTrips
  | fill => fill_roundTrips
  | options => options_roundTrips
  | style => style_roundTrips
  | rawStyle => rawStyle_roundTrips
  | point => point_roundTrips
  | polygon => polygon_roundTrips
  | bounds => bounds_roundTrips
  | config => config_roundTrips
  | operation => operation_roundTrips
  | job => job_roundTrips

variable {k : Kind} {a : k.Carrier}

theorem read_render (h : ∀ x ∈ k.doubles a, x.isFinite = true ∧ ReadsNearest x) :
    Json.read k.reader (k.toValue a).render = .ok a :=
  (k.roundTrips.reads a).render (by decide) ((k.roundTrips.legible a).mpr h)

/-- **Values with short doubles are read back**, without anything being taken of the reader. -/
theorem read_render_of_isShort (h : ∀ x ∈ k.doubles a, x.isFinite = true ∧ Json.IsShort x) :
    Json.read k.reader (k.toValue a).render = .ok a :=
  read_render fun x hx => ⟨(h x hx).1, Json.readsNearest_of_isShort (h x hx).2⟩

end Kind

end Document

open Document (Kind)

/-- **Documents are read back.** A value of any type whose doubles are finite is read back from the
text that is written for it, every double with all its bits. What is read from any text has finite
doubles, so it is read back from its own text as well. Of the reader of numbers this takes that it
gets the nearest double from the digits of each double; of short ones, with fifteen digits say,
nothing has to be taken. -/
theorem document_round_trip (k : Kind) :
    (∀ a : k.Carrier, (∀ x ∈ k.doubles a, x.isFinite = true) →
      (∀ x ∈ k.doubles a, Json.ReadsNearest x) →
        Json.read k.reader (k.toValue a).render = .ok a) ∧
    (∀ a : k.Carrier, (∀ x ∈ k.doubles a, x.isFinite = true ∧ Json.IsShort x) →
      Json.read k.reader (k.toValue a).render = .ok a) ∧
    ∀ (text : String) (a : k.Carrier), Json.read k.reader text = .ok a →
      (∀ x ∈ k.doubles a, x.isFinite = true) ∧
        ((∀ x ∈ k.doubles a, Json.ReadsNearest x) →
          Json.read k.reader (k.toValue a).render = .ok a) := by
  refine ⟨fun a hfinite hnearest => ?_, fun a hshort => ?_, fun text a h => ?_⟩
  · exact Kind.read_render fun x hx => ⟨hfinite x hx, hnearest x hx⟩
  · exact Kind.read_render_of_isShort hshort
  · have hfinite : ∀ x ∈ k.doubles a, x.isFinite = true := k.roundTrips.yields.read h
    exact ⟨hfinite, fun hnearest => Kind.read_render fun x hx => ⟨hfinite x hx, hnearest x hx⟩⟩

/-- A job with characters that are escaped, a negative zero and members that are unset; a text that
leaves members out and has a whole number for a double; and a point with short coordinates. -/
theorem document_round_trip_job :
    let j : Job := ⟨some ⟨⟨-2147483648, 0, 2147483647, 7962⟩, 0.025, true⟩,
      [.label "a\"b\\\n\x01é" ⟨-0.0, 1e-7⟩ 0.3, .lineType none (some 4),
        .style ⟨some 9, some ⟨-1, none⟩, some (.hatch 4.5 45)⟩,
        .fillCircle ⟨1, 1e22⟩ 3.5 .solid none, .park]⟩
    let text := "\x7b\"operations\":[[\"speed\",38],\x7b\"op\":\"style\"\x7d]\x7d"
    let k : Job := ⟨none, [.speed 38, .style default]⟩
    let p : Point := ⟨-0.000123456789012345, 1e22⟩
    Json.read Document.job (Document.jobValue j).render = .ok j ∧
      Json.read Document.job text = .ok k ∧
        Json.read Document.job (Document.jobValue k).render = .ok k ∧
          Json.read Document.point (Document.pointValue p).render = .ok p := by
  intro j text k p
  have hread : Json.read Document.job text = .ok k :=
    Json.eq_ok_of_toOption (by decide +kernel)
  refine ⟨(document_round_trip .job).1 j (by decide +kernel) (by decide +kernel), hread, ?_, ?_⟩
  · exact ((document_round_trip .job).2.2 text k hread).2 (by decide +kernel)
  · exact (document_round_trip .point).2.1 p (by decide +kernel)

end HpGl
