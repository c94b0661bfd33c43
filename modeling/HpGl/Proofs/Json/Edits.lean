import HpGl.Proofs.Json.Embedding

/-!
# Edits of documents

The members of an object may be put in another order, members that mean nothing may be put between
them, and one that is `null` may be left out. Each of these may also happen inside a member, so an
edit deep in a document is an edit of all that it stands in. What is put into a choice must be
readable there, although the alternative does not look at it: a choice is taken in whole before it
is read.

* `times`: how often a name stands among members; `lookup_eq_some_iff_mem`, `lookup_perm`.
* `Edit`: changes of a value; `MembersStep`, `ItemsStep`: changes of members and of items.
* `MembersStep.taken`, `MembersStep.times_le`: what can be taken in after a change, and how often a
  name stands there.
* `Alike`, **`MembersStep.alike`**: what a field finds after a change.
* `Edit.items`, `Edit.record`, `Edit.tagged`: edits of arrays, records and choices; `Declares`.
-/

namespace HpGl.Json

/-! ## Members -/

/-- How often a name stands among members. -/
def times (k : String) (ms : Members) : ℕ := (ms.map Prod.fst).count (some k)

section Times

variable {k : String} {m : Option String × Scan} {ms ms' : Members} {s : Scan}

@[simp] theorem times_nil : times k [] = 0 := rfl

@[simp] theorem times_cons :
    times k (m :: ms) = times k ms + if m.1 = some k then 1 else 0 := by
  simp only [times, List.map_cons, List.count_cons, beq_iff_eq]

theorem times_cons_self : times k ((some k, s) :: ms) = times k ms + 1 := by
  rw [times_cons, if_pos rfl]

theorem times_cons_of_ne (h : m.1 ≠ some k) : times k (m :: ms) = times k ms := by
  rw [times_cons, if_neg h, Nat.add_zero]

theorem times_perm (h : ms.Perm ms') : times k ms = times k ms' := (h.map Prod.fst).count_eq _

theorem times_pos_iff : 0 < times k ms ↔ some k ∈ ms.map Prod.fst := List.count_pos_iff

theorem lookup_eq_none_iff_times : ms.lookup (some k) = none ↔ times k ms = 0 := by
  rw [times, List.count_eq_zero, List.lookup_eq_none_iff, List.mem_map]
  simp only [bne_iff_ne, ne_eq, not_exists, not_and]
  exact ⟨fun h m hm e => h m hm e.symm, fun h m hm e => h m hm e.symm⟩

theorem lookup_eq_some_iff_mem (h : times k ms ≤ 1) :
    ms.lookup (some k) = some s ↔ (some k, s) ∈ ms := by
  induction ms with
  | nil => simp
  | cons m ms ih =>
    obtain ⟨n, t⟩ := m
    by_cases hn : n = some k
    · subst hn
      rw [times_cons_self] at h
      have habsent : (some k, s) ∉ ms := by
        intro hmem
        have hpos := times_pos_iff.mpr (List.mem_map_of_mem (f := Prod.fst) hmem)
        omega
      rw [List.lookup_cons_self, List.mem_cons, Prod.mk.injEq, or_iff_left habsent,
        Option.some.injEq]
      exact ⟨fun e => ⟨rfl, e.symm⟩, fun ⟨_, e⟩ => e.symm⟩
    · rw [times_cons_of_ne hn] at h
      have hne : (some k == n) = false := beq_eq_false_iff_ne.mpr (Ne.symm hn)
      have hhead : (some k, s) ≠ (n, t) := fun e => hn (Prod.mk.inj e).1.symm
      rw [List.lookup_cons, hne, ih h, List.mem_cons, or_iff_right hhead]

/-- **Members may stand in any order.** -/
theorem lookup_perm (h : ms.Perm ms') (honce : times k ms ≤ 1) :
    ms.lookup (some k) = ms'.lookup (some k) := by
  have honce' : times k ms' ≤ 1 := times_perm h ▸ honce
  ext s
  rw [lookup_eq_some_iff_mem honce, lookup_eq_some_iff_mem honce', h.mem_iff]

end Times

/-! ## Edits -/

/-- **Changes of a value** where it stands. One that can be taken in whole stays so, and `null`
neither comes nor goes. What may be done in a text may be done to what was taken from it. -/
structure Edit where
  step : Access → Scan → Scan → Prop
  takes : ∀ {acc : Access} {s s' : Scan}, step acc s s' → acc.takes s = true → acc.takes s' = true
  buffered : ∀ {acc : Access} {s s' : Scan}, step acc s s' → step .buffered s s'
  ne_null : ∀ {acc : Access} {s s' : Scan}, step acc s s' → s ≠ .null ∧ s' ≠ .null

/-- Nothing is changed. -/
def Edit.fixed : Edit where
  step _ _ _ := False
  takes := nofun
  buffered := nofun
  ne_null := nofun

/-- **A change of members**: they are put in another order; one that is not declared is put in,
with a value that can be taken in; one that is `null` is left out; the value of one is changed. A
member in front stands for any, by the first of these. -/
inductive MembersStep (declared : String → Prop) (inside : String → Edit) (acc : Access) :
    Members → Members → Prop
  | permute {ms ms' : Members} (h : ms.Perm ms') : MembersStep declared inside acc ms ms'
  | insert {k : String} {s : Scan} {ms : Members} (hk : ¬ declared k) (hs : acc.takes s = true) :
    MembersStep declared inside acc ms ((some k, s) :: ms)
  | drop {k : String} {ms : Members} : MembersStep declared inside acc ((some k, .null) :: ms) ms
  | within {k : String} {s s' : Scan} {ms : Members} (h : (inside k).step acc s s') :
    MembersStep declared inside acc ((some k, s) :: ms) ((some k, s') :: ms)

/-- **A change of items**: one of them is changed, by the edit for its place. -/
inductive ItemsStep (acc : Access) : List Edit → List Scan → List Scan → Prop
  | head {E : Edit} {Es : List Edit} {s s' : Scan} {items : List Scan} (h : E.step acc s s') :
    ItemsStep acc (E :: Es) (s :: items) (s' :: items)
  | tail {E : Edit} {Es : List Edit} {s : Scan} {items items' : List Scan}
    (h : ItemsStep acc Es items items') : ItemsStep acc (E :: Es) (s :: items) (s :: items')

/-- A member that can be taken in. -/
def Taken (acc : Access) (m : Option String × Scan) : Prop :=
  m.1.isSome = true ∧ acc.takes m.2 = true

section Steps

variable {acc inner : Access} {declared : String → Prop} {inside : String → Edit}
  {ms ms' : Members} {Es : List Edit} {items items' : List Scan} {closed : Bool}

namespace MembersStep

theorem taken (h : MembersStep declared inside acc ms ms') (hms : ∀ m ∈ ms, Taken acc m) :
    ∀ m ∈ ms', Taken acc m := by
  cases h with
  | permute h => exact fun m hm => hms m (h.mem_iff.mpr hm)
  | insert _ hs => exact List.forall_mem_cons.mpr ⟨⟨rfl, hs⟩, hms⟩
  | drop => exact (List.forall_mem_cons.mp hms).2
  | within h =>
    obtain ⟨⟨-, hs⟩, hms⟩ := List.forall_mem_cons.mp hms
    exact List.forall_mem_cons.mpr ⟨⟨rfl, (inside _).takes h hs⟩, hms⟩

theorem buffered (h : MembersStep declared inside acc ms ms') :
    MembersStep declared inside .buffered ms ms' := by
  cases h with
  | permute h => exact .permute h
  | insert hk _ => exact .insert hk rfl
  | drop => exact .drop
  | within h => exact .within ((inside _).buffered h)

theorem names_isSome (h : MembersStep declared inside acc ms ms')
    (hms : ∀ m ∈ ms, m.1.isSome = true) : ∀ m ∈ ms', m.1.isSome = true := fun m hm =>
  (h.buffered.taken (fun m hm => ⟨hms m hm, rfl⟩) m hm).1

theorem times_le (h : MembersStep declared inside acc ms ms') {k : String} (hk : declared k) :
    times k ms' ≤ times k ms := by
  cases h with
  | permute h => exact (times_perm h).ge
  | @insert n s _ hn _ =>
    have hne : (some n, s).1 ≠ some k := fun e => hn (Option.some.inj e ▸ hk)
    rw [times_cons_of_ne hne]
  | drop => exact times_cons ▸ Nat.le_add_right _ _
  | within => rw [times_cons, times_cons]

end MembersStep

theorem ItemsStep.taken (h : ItemsStep acc Es items items')
    (hitems : ∀ s ∈ items, acc.takes s = true) : ∀ s ∈ items', acc.takes s = true := by
  induction h with
  | @head E _ _ _ _ h =>
    obtain ⟨hs, hitems⟩ := List.forall_mem_cons.mp hitems
    exact List.forall_mem_cons.mpr ⟨E.takes h hs, hitems⟩
  | tail _ ih =>
    obtain ⟨hs, hitems⟩ := List.forall_mem_cons.mp hitems
    exact List.forall_mem_cons.mpr ⟨hs, ih hitems⟩

theorem ItemsStep.buffered (h : ItemsStep acc Es items items') :
    ItemsStep .buffered Es items items' := by
  induction h with
  | @head E _ _ _ _ h => exact .head (E.buffered h)
  | tail _ ih => exact .tail ih

/-! ### Values with members and items -/

theorem membersReadable_iff {room : ℕ} :
    Scan.membersReadable room ms = true ↔ ∀ m ∈ ms, Taken (.streamed room) m := by
  induction ms with
  | nil => exact iff_of_true rfl nofun
  | cons m ms ih =>
    rw [Scan.membersReadable, Bool.and_eq_true, Bool.and_eq_true, ih, List.forall_mem_cons]
    rfl

theorem itemsReadable_iff {room : ℕ} :
    Scan.itemsReadable room items = true ↔ ∀ s ∈ items, (Access.streamed room).takes s = true := by
  induction items with
  | nil => exact iff_of_true rfl nofun
  | cons s items ih =>
    rw [Scan.itemsReadable, Bool.and_eq_true, ih, List.forall_mem_cons]
    rfl

theorem Access.takes_object (henter : acc.enter = .ok inner)
    (hms : (∀ m ∈ ms, Taken inner m) → ∀ m ∈ ms', Taken inner m)
    (h : acc.takes (.object ms closed) = true) : acc.takes (.object ms' closed) = true := by
  match acc, henter with
  | .buffered, _ => rfl
  | .streamed (room + 1), rfl =>
    simp only [Access.takes, Scan.readable, Bool.and_eq_true, membersReadable_iff] at h ⊢
    exact ⟨h.1, hms h.2⟩

theorem Access.takes_array (henter : acc.enter = .ok inner)
    (hitems : (∀ s ∈ items, inner.takes s = true) → ∀ s ∈ items', inner.takes s = true)
    (h : acc.takes (.array items closed) = true) : acc.takes (.array items' closed) = true := by
  match acc, henter with
  | .buffered, _ => rfl
  | .streamed (room + 1), rfl =>
    simp only [Access.takes, Scan.readable, Bool.and_eq_true, itemsReadable_iff] at h ⊢
    exact ⟨h.1, hitems h.2⟩

end Steps

/-! ### What a field finds -/

/-- What a field finds after an edit: the same, nothing for `null`, or what the edit made of it. -/
inductive Alike (E : Edit) : Option Scan → Option Scan → Prop
  | same (o : Option Scan) : Alike E o o
  | dropped : Alike E (some .null) none
  | edited {s s' : Scan} (h : E.step .buffered s s') : Alike E (some s) (some s')

theorem MembersStep.alike {declared : String → Prop} {inside : String → Edit} {ms ms' : Members}
    {k : String} (h : MembersStep declared inside .buffered ms ms') (hk : declared k)
    (honce : times k ms ≤ 1) :
    Alike (inside k) (ms.lookup (some k)) (ms'.lookup (some k)) := by
  cases h with
  | permute h => exact lookup_perm h honce ▸ .same _
  | @insert n s _ hn _ =>
    have hne : k ≠ n := fun e => hn (e ▸ hk)
    exact (Record.lookup_cons_of_ne hne s ms) ▸ .same _
  | @drop n =>
    by_cases hn : k = n
    · subst hn
      have habsent : ms'.lookup (some k) = none := by
        rw [times_cons_self] at honce
        exact lookup_eq_none_iff_times.mpr (by omega)
      rw [List.lookup_cons_self, habsent]
      exact .dropped
    · exact (Record.lookup_cons_of_ne hn _ ms') ▸ .same _
  | @within n s s' rest h =>
    by_cases hn : k = n
    · subst hn
      rw [List.lookup_cons_self, List.lookup_cons_self]
      exact .edited h
    · rw [Record.lookup_cons_of_ne hn, Record.lookup_cons_of_ne hn]
      exact .same _

/-! ### Arrays, records and choices -/

/-- A change of an item of an array. -/
inductive ArrayStep (E : Edit) (acc : Access) : Scan → Scan → Prop
  | items {inner : Access} {n : ℕ} {items items' : List Scan} {closed : Bool}
    (henter : acc.enter = .ok inner) (h : ItemsStep inner (List.replicate n E) items items') :
    ArrayStep E acc (.array items closed) (.array items' closed)

/-- The items of an array are changed. -/
def Edit.items (E : Edit) : Edit where
  step := ArrayStep E
  takes := fun ⟨henter, h⟩ ht => Access.takes_array henter h.taken ht
  buffered := fun ⟨_, h⟩ => ⟨rfl, h.buffered⟩
  ne_null := fun ⟨_, _⟩ => ⟨nofun, nofun⟩

/-- A change of a record, which is an object or an array of its fields in order. -/
inductive RecordStep (names : List String) (inside : String → Edit) (acc : Access) :
    Scan → Scan → Prop
  | members {inner : Access} {ms ms' : Members} {closed : Bool} (henter : acc.enter = .ok inner)
    (h : MembersStep (· ∈ names) inside inner ms ms') :
    RecordStep names inside acc (.object ms closed) (.object ms' closed)
  | items {inner : Access} {items items' : List Scan} {closed : Bool}
    (henter : acc.enter = .ok inner) (h : ItemsStep inner (names.map inside) items items') :
    RecordStep names inside acc (.array items closed) (.array items' closed)

/-- The members of a record with these fields are changed, each of them by the edit for its name. -/
def Edit.record (names : List String) (inside : String → Edit) : Edit where
  step := RecordStep names inside
  takes
    | .members henter h, ht => Access.takes_object henter h.taken ht
    | .items henter h, ht => Access.takes_array henter h.taken ht
  buffered
    | .members _ h => .members rfl h.buffered
    | .items _ h => .items rfl h.buffered
  ne_null
    | .members _ _ => ⟨nofun, nofun⟩
    | .items _ _ => ⟨nofun, nofun⟩

section Choice

variable {α : Type} (variants : List (Variant α)) (key : String) (names : String → List String)

/-- **The names that an object of a choice declares**: its tag, and the names of the alternative
that the tag names. -/
def Declares (ms : Members) (k : String) : Prop :=
  k = key ∨ ∃ tag v, (some key, tag) ∈ ms ∧ readTag variants .buffered tag = .ok v ∧
    k ∈ names v.tag

/-- A change of an object that is a choice. -/
inductive ChoiceStep (inside : String → Edit) (acc : Access) : Scan → Scan → Prop
  | members {inner : Access} {ms ms' : Members} {closed : Bool} (henter : acc.enter = .ok inner)
    (h : MembersStep (Declares variants key names ms) inside inner ms ms') :
    ChoiceStep inside acc (.object ms closed) (.object ms' closed)

/-- The members of a choice are changed, the tag among them. -/
def Edit.tagged (inside : String → Edit) : Edit where
  step := ChoiceStep variants key names inside
  takes := fun ⟨henter, h⟩ ht => Access.takes_object henter h.taken ht
  buffered := fun ⟨_, h⟩ => ⟨rfl, h.buffered⟩
  ne_null := fun ⟨_, _⟩ => ⟨nofun, nofun⟩

end Choice

end HpGl.Json
