import HpGl.Document.Job
import HpGl.Proofs.Json.Rearranging

/-!
# Rearranged operations

An operation is known by the member `op`, wherever it stands, and by the members that it declares.
Points, fills, styles and line patterns stand inside these, and each of them is an object of its
own. What may be done to such an object without a change of what is read is the edit of its type.

* `pointEdit`, `lineTypeEdit`, `fillEdit`, `styleEdit`, `operationEdit`: the edits.
* `operationNames`: what an operation declares; `operationNames_eq`: and what is written for it.
* `point_respects`, `fill_respects` and so on: the readers of what stands inside operations.
* `operationVariants_follow`: the twenty-two operations, one by one.
* **`operation_rearranged`**: operations in a place and in a text of their own.
-/

namespace HpGl.Document

open Json (Access Declares Edit Members Reader Record Scan Value Variant tagged_once times)
open Json.Record (Follows)
open Json.Reader (Respects)
open Relation (ReflTransGen)

/-! ## Edits -/

/-- A point is edited. -/
def pointEdit : Edit := .record ["x", "y"] fun _ => .fixed

/-- A line pattern is edited. -/
def lineTypeEdit : Edit := .record ["pattern", "space_percent"] fun _ => .fixed

/-- What a fill declares beside its model. -/
def fillNames (model : String) : List String :=
  match model with
  | "hatch" | "cross_hatch" => ["spacing", "angle"]
  | _ => []

/-- A fill is edited. -/
def fillEdit : Edit := .tagged fillVariants "model" fillNames fun _ => .fixed

/-- What is edited inside the members of a style. -/
def styleInside (name : String) : Edit :=
  match name with
  | "line_type" => lineTypeEdit
  | "fill" => fillEdit
  | _ => .fixed

/-- A style is edited. -/
def styleEdit : Edit := .record ["pen", "line_type", "fill"] styleInside

/-- What an operation declares beside its name. -/
def operationNames (op : String) : List String :=
  match op with
  | "pen" => ["slot"]
  | "line_type" => ["pattern", "space"]
  | "fill_type" => ["model", "spacing", "angle"]
  | "style" => ["style"]
  | "rotate" => ["theta"]
  | "speed" => ["cm_per_s"]
  | "send_to" | "draw_to" => ["at"]
  | "line" => ["from", "to"]
  | "lines" | "poly" => ["points"]
  | "circle" => ["center", "diameter", "resolution"]
  | "fill_circle" => ["center", "diameter", "fill", "resolution"]
  | "wedge" => ["center", "diameter", "start", "sweep", "resolution"]
  | "fill_wedge" => ["center", "diameter", "start", "sweep", "fill", "resolution"]
  | "arc" => ["center", "size", "start", "end", "resolution"]
  | "rect" => ["corner", "width", "height"]
  | "fill_rect" => ["corner", "width", "height", "fill"]
  | "fill_poly" => ["points", "fill"]
  | "label" => ["text", "at", "size"]
  | "raw" => ["hpgl"]
  | _ => []

/-- What is edited inside the members of an operation. -/
def operationInside (name : String) : Edit :=
  match name with
  | "at" | "from" | "to" | "center" | "corner" => pointEdit
  | "points" => .items pointEdit
  | "fill" => fillEdit
  | "style" => styleEdit
  | _ => .fixed

/-- An operation is edited. -/
def operationEdit : Edit := .tagged operationVariants "op" operationNames operationInside

/-- The names that an operation declares are those that are written for it. -/
theorem operationNames_eq (o : Operation) :
    operationNames (operationMembers o).1 = (operationMembers o).2.map Prod.fst := by
  cases o <;> rfl

/-! ## Readers -/

theorem point_respects : Respects point .buffered pointEdit :=
  Follows.read (.seq (.map _ (.field "x" (.fixed _ _) nofun)) (.field "y" (.fixed _ _) nofun)) _

theorem rawLineType_respects : Respects rawLineType .buffered lineTypeEdit :=
  Follows.read
    (.seq (.map _ (.field "pattern" (.fixed _ _) nofun))
      (.optionalField "space_percent" (.fixed _ _))) _

theorem hatchingRecord_follows (f : Float → Float → Fill) :
    (hatchingRecord f).Follows fun _ => .fixed :=
  .seq (.map _ (.field "spacing" (.fixed _ _) nofun)) (.field "angle" (.fixed _ _) nofun)

theorem fillVariants_follow :
    ∀ v ∈ fillVariants, v.Follows (fillNames v.tag) fun _ => .fixed := by
  simp only [fillVariants, List.forall_mem_cons]
  refine ⟨.unit _ _, .unit _ _, ?_, ?_, nofun⟩
  · exact .record "hatch" _ (hatchingRecord_follows _)
  · exact .record "cross_hatch" _ (hatchingRecord_follows _)

theorem fill_respects (acc : Access) : Respects fill acc fillEdit :=
  .tagged fillVariants_follow rfl

theorem rawStyle_respects : Respects rawStyle .buffered styleEdit :=
  Follows.read
    (.seq (.seq (.map _ (.optionalField "pen" (.fixed _ _)))
      (.optionalField "line_type" rawLineType_respects))
      (.optionalField "fill" (fill_respects _))) _

/-! ## Operations -/

section Fields

variable {name : String}

theorem follows_real (h : operationInside name = .fixed) :
    (Record.field name Json.real).Follows operationInside :=
  .field name (h ▸ .fixed _ _) nofun

theorem follows_optionalReal (h : operationInside name = .fixed) :
    (Record.optionalField name Json.real).Follows operationInside :=
  .optionalField name (h ▸ .fixed _ _)

theorem follows_int32 (h : operationInside name = .fixed) :
    (Record.field name Json.int32).Follows operationInside :=
  .field name (h ▸ .fixed _ _) nofun

theorem follows_point (h : operationInside name = pointEdit) :
    (Record.field name point).Follows operationInside :=
  .field name (h ▸ point_respects) nofun

theorem follows_points : (Record.field "points" (Json.list point)).Follows operationInside :=
  .field "points" point_respects.list nofun

theorem follows_fill : fillField.Follows operationInside :=
  .fieldOr "fill" (fill_respects _) nofun

end Fields

theorem operationVariant_follows {R : Record Operation} (tag title : String)
    (hR : R.Follows operationInside) (hnames : R.names = operationNames tag) :
    (operationVariant tag title R).Follows (operationNames tag) operationInside :=
  hnames ▸ .record tag _ hR

theorem operationVariants_follow :
    ∀ v ∈ operationVariants, v.Follows (operationNames v.tag) operationInside := by
  simp only [operationVariants, List.forall_mem_cons]
  refine ⟨?pen, ?lineType, ?fillType, ?style, ?rotate, ?speed, ?sendTo, ?line, ?drawTo, ?lines,
    ?circle, ?fillCircle, ?wedge, ?fillWedge, ?arc, ?rect, ?fillRect, ?poly, ?fillPoly, ?label,
    .unit _ _, ?raw, nofun⟩
  all_goals refine operationVariant_follows _ _ ?_ rfl
  case pen => exact .map _ (follows_int32 rfl)
  case lineType =>
    exact .seq (.map _ (.optionalField _ (.fixed _ _))) (follows_optionalReal rfl)
  case fillType =>
    exact .seq (.seq (.map _ (follows_int32 rfl)) (follows_optionalReal rfl))
      (follows_optionalReal rfl)
  case style => exact .map _ (.fieldOr _ rawStyle_respects nofun)
  case rotate => exact .map _ (follows_int32 rfl)
  case speed => exact .map _ (follows_real rfl)
  case sendTo => exact .map _ (follows_point rfl)
  case line => exact .seq (.map _ (follows_point rfl)) (follows_point rfl)
  case drawTo => exact .map _ (follows_point rfl)
  case lines => exact .map _ follows_points
  case circle =>
    exact .seq (.seq (.map _ (follows_point rfl)) (follows_real rfl)) (follows_optionalReal rfl)
  case fillCircle =>
    exact .seq (.seq (.seq (.map _ (follows_point rfl)) (follows_real rfl)) follows_fill)
      (follows_optionalReal rfl)
  case wedge =>
    exact .seq (.seq (.seq (.seq (.map _ (follows_point rfl)) (follows_real rfl))
      (follows_real rfl)) (follows_real rfl)) (follows_optionalReal rfl)
  case fillWedge =>
    exact .seq (.seq (.seq (.seq (.seq (.map _ (follows_point rfl)) (follows_real rfl))
      (follows_real rfl)) (follows_real rfl)) follows_fill) (follows_optionalReal rfl)
  case arc =>
    exact .seq (.seq (.seq (.seq (.map _ (follows_point rfl)) (follows_real rfl))
      (follows_real rfl)) (follows_real rfl)) (follows_optionalReal rfl)
  case rect =>
    exact .seq (.seq (.map _ (follows_point rfl)) (follows_real rfl)) (follows_real rfl)
  case fillRect =>
    exact .seq (.seq (.seq (.map _ (follows_point rfl)) (follows_real rfl)) (follows_real rfl))
      follows_fill
  case poly => exact .map _ follows_points
  case fillPoly => exact .seq (.map _ follows_points) follows_fill
  case label =>
    exact .seq (.seq (.map _ (.field _ (.fixed _ _) nofun)) (follows_point rfl))
      (follows_real rfl)
  case raw => exact .map _ (.field _ (.fixed _ _) nofun)

theorem operation_respects (acc : Access) : Respects operation acc operationEdit :=
  .tagged operationVariants_follow rfl

/-- **Operations by their members.** Members in another order, members that an operation does not
declare and members that are `null`, there and in what stands inside it, change nothing of what is
read. With a declared member there twice no operation is read. -/
theorem operation_rearranged :
    (∀ (acc : Access) (s s' : Scan) (o : Operation),
      ReflTransGen (operationEdit.step acc) s s' → operation acc s = .ok o →
        operation acc s' = .ok o) ∧
    (∀ (text text' : String) (o : Operation),
      ReflTransGen (operationEdit.step (.streamed Json.maxDepth))
          (Json.scan text).1 (Json.scan text').1 →
        (Json.scan text').2 = true → Json.read operation text = .ok o →
          Json.read operation text' = .ok o) ∧
    ∀ (ms : Members) (k : String) (closed : Bool) (o : Operation),
      Declares operationVariants "op" operationNames ms k → 2 ≤ times k ms →
        (∀ acc, operation acc (.object ms closed) ≠ .ok o) ∧
        ∀ text, (Json.scan text).1 = .object ms closed → Json.read operation text ≠ .ok o := by
  refine ⟨fun acc s s' o hstep => (operation_respects acc).run hstep,
    fun text text' o hstep hended => (operation_respects _).read hstep hended, ?_⟩
  intro ms k closed o hk htwice
  have hnever : ∀ acc, operation acc (.object ms closed) ≠ .ok o := by
    intro acc h
    have honce := tagged_once operationVariants_follow h hk
    omega
  refine ⟨hnever, fun text hscan h => ?_⟩
  exact hnever _ (hscan ▸ (Json.read_eq_ok.mp h).1)

/-- A style with a `null` inside, in another order and with a note in between; a pen with two
slots. -/
theorem operation_rearranged_style :
    let lineType : List (String × Value) := [("pattern", .integer 2)]
    let before : Value := .object [("op", .string "style"),
      ("style", .object [("pen", .integer 3),
        ("line_type", .object (("space_percent", .null) :: lineType))])]
    let after : Value := .object [
      ("style", .object [("line_type", .object lineType), ("pen", .integer 3)]),
      ("note", .integer 7), ("op", .string "style")]
    let twice : Value := .object [("slot", .integer 1), ("op", .string "pen"), ("slot", .integer 1)]
    let style : Operation := .style ⟨some 3, some ⟨2, none⟩, none⟩
    operation (.streamed Json.maxDepth) before.scan = .ok style ∧
      operation (.streamed Json.maxDepth) after.scan = .ok style ∧
      Json.read operation before.render = .ok style ∧
      Json.read operation after.render = .ok style ∧
      ∀ o, operation .buffered twice.scan ≠ .ok o ∧ Json.read operation twice.render ≠ .ok o := by
  intro lineType before after twice style
  have hlegible : before.Legible ∧ after.Legible ∧ twice.Legible := by
    simp [before, after, twice, lineType, Value.Legible, Value.MembersLegible]
  have hscan := Json.scan_render hlegible.1
  have hscan' := Json.scan_render hlegible.2.1
  have hsteps :
      ReflTransGen (operationEdit.step (.streamed Json.maxDepth)) before.scan after.scan := by
    have hnote : (Access.streamed 126).takes (.integer 7) = true := rfl
    refine .head (.members rfl (.permute (.swap _ _ _))) ?_
    refine .head (.members rfl (.within (.members rfl (.permute (.swap _ _ _))))) ?_
    refine .head (.members rfl (.within (.members rfl (.within (.members rfl .drop))))) ?_
    refine .head (.members rfl (.insert (k := "note") ?note hnote)) ?_
    case note =>
      rintro (hop | ⟨tag, v, htag, hv, hk⟩)
      · exact absurd hop (by decide)
      · have htag : tag = .string (some "style") := by
          simpa [Value.memberScans, Value.scan] using htag
        subst htag
        obtain rfl := Except.ok.inj hv
        exact absurd hk (by decide)
    exact .single (.members rfl (.permute (.swap _ _ _)))
  have hplace : operation (.streamed Json.maxDepth) before.scan = .ok style :=
    Json.eq_ok_of_toOption (by decide +kernel)
  have htext : Json.read operation before.render = .ok style :=
    Json.eq_ok_of_toOption (by decide +kernel)
  refine ⟨hplace, operation_rearranged.1 _ _ _ _ hsteps hplace, htext, ?_, fun o => ?_⟩
  · refine operation_rearranged.2.1 _ _ _ ?_ ?_ htext
    · rw [hscan, hscan']
      exact hsteps
    · rw [hscan']
  · have hslot : Declares operationVariants "op" operationNames
        (Value.memberScans [("slot", .integer 1), ("op", .string "pen"), ("slot", .integer 1)])
        "slot" := by
      refine .inr ⟨.string (some "pen"), _, ?_, rfl, by decide⟩
      simp [Value.memberScans, Value.scan]
    obtain ⟨hplace, htext⟩ := operation_rearranged.2.2 _ _ true o hslot (by decide)
    exact ⟨hplace .buffered, htext _ (by rw [Json.scan_render hlegible.2.2]; rfl)⟩

end HpGl.Document
