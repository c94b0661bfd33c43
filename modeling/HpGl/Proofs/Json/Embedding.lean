import HpGl.Proofs.Json.Finite
import HpGl.Proofs.Json.Reading

/-!
# Readers that agree

Two types may have documents of the same form, one of them with fewer values than the other. Their
readers agree if the one reads a value from a document exactly where the other reads the image of
that value. This carries over from the fields of two records to the records, although the check of a
member is only that it can be read: what a record is read from has passed these checks.

* `Reader.Embeds`: readers that agree, by a map of their values; `Reader.Embeds.optional`.
* `Record.Checked`: the members that a record is read from pass its checks.
* `Record.Embeds`: records that agree; `Record.Embeds.fieldOr`, `Record.ofMembers_seq` and its
  neighbours.
* `checkMembers_of_names`: the checks of one record, from those of another with the same fields.
* **`Record.Embeds.read`**, **`Reader.Embeds.read`**: records and whole texts.
-/

namespace HpGl.Json

/-- **Readers agree**: the one reads a value exactly where the other reads its image. -/
def Reader.Embeds {α β : Type} (r : Reader α) (r' : Reader β) (f : α → β) : Prop :=
  ∀ (acc : Access) (s : Scan) (a : α), r acc s = .ok a ↔ r' acc s = .ok (f a)

namespace Reader.Embeds

variable {α β : Type} {r : Reader α} {r' : Reader β} {f : α → β}

theorem refl (r : Reader α) : r.Embeds r id := fun _ _ _ => Iff.rfl

theorem optional (h : r.Embeds r' f) :
    (Json.optional r).Embeds (Json.optional r') (Option.map f) := by
  intro acc s o
  cases o with
  | none =>
    unfold Json.optional
    split
    · exact iff_of_true rfl rfl
    · simp [map_eq_ok]
  | some a =>
    unfold Json.optional
    split
    · exact iff_of_false nofun nofun
    · simp [map_eq_ok, h acc]

end Reader.Embeds

/-! ## Records -/

namespace Record

variable {α β : Type} {F : Record (α → β)} {R : Record α} {R' : Record β} {f : α → β}
  {acc : Access} {ms : Members} {closed : Bool} {items : List Scan} {expected : String} {i : ℕ}

theorem ofMembers_seq {b : β} : (F <*> R).ofMembers acc ms = .ok b ↔
    ∃ g a, F.ofMembers acc ms = .ok g ∧ R.ofMembers acc ms = .ok a ∧ g a = b := by
  change (do Pure.pure ((← F.ofMembers acc ms) (← R.ofMembers acc ms))) = _ ↔ _
  simp only [bind_eq_ok]
  constructor
  · rintro ⟨g, hg, a, ha, h⟩
    exact ⟨g, a, hg, ha, Except.ok.inj h⟩
  · rintro ⟨g, a, hg, ha, rfl⟩
    exact ⟨g, hg, a, ha, rfl⟩

theorem ofMembers_map {b : β} : (f <$> R).ofMembers acc ms = .ok b ↔
    ∃ a, R.ofMembers acc ms = .ok a ∧ f a = b := by
  refine (ofMembers_seq (F := Pure.pure f)).trans ?_
  constructor
  · rintro ⟨g, a, hg, ha, h⟩
    obtain rfl := Except.ok.inj hg
    exact ⟨a, ha, h⟩
  · rintro ⟨a, ha, h⟩
    exact ⟨f, a, rfl, ha, h⟩

theorem ofItems_seq {b : β} {rest : ℕ × List Scan} :
    (F <*> R).ofItems expected acc closed i items = .ok (b, rest) ↔
      ∃ g next a, F.ofItems expected acc closed i items = .ok (g, next) ∧
        R.ofItems expected acc closed next.1 next.2 = .ok (a, rest) ∧ g a = b := by
  change (andThen F fun _ => R).ofItems expected acc closed i items = _ ↔ _
  simp only [andThen, bind_eq_ok]
  constructor
  · rintro ⟨⟨g, next⟩, hg, ⟨a, rest'⟩, ha, h⟩
    obtain ⟨rfl, rfl⟩ := Prod.mk.inj (Except.ok.inj h)
    exact ⟨g, next, a, hg, ha, rfl⟩
  · rintro ⟨g, next, a, hg, ha, rfl⟩
    exact ⟨(g, next), hg, (a, rest), ha, rfl⟩

theorem ofItems_map {b : β} {rest : ℕ × List Scan} :
    (f <$> R).ofItems expected acc closed i items = .ok (b, rest) ↔
      ∃ a, R.ofItems expected acc closed i items = .ok (a, rest) ∧ f a = b := by
  refine (ofItems_seq (F := Pure.pure f)).trans ?_
  constructor
  · rintro ⟨g, next, a, hg, ha, h⟩
    obtain ⟨rfl, rfl⟩ := Prod.mk.inj (Except.ok.inj hg)
    exact ⟨a, ha, h⟩
  · rintro ⟨a, ha, h⟩
    exact ⟨f, (i, items), a, rfl, ha, h⟩

/-- **The members that a record is read from pass its checks.** -/
def Checked (R : Record α) : Prop :=
  ∀ ⦃acc : Access⦄ ⦃ms : Members⦄ ⦃a : α⦄, R.ofMembers acc ms = .ok a →
    ∀ ⦃k : String⦄ ⦃check : Access → Scan → Result Unit⦄, R.fields.lookup k = some check →
      ∀ ⦃s : Scan⦄, ms.lookup (some k) = some s → check acc s = .ok ()

namespace Checked

theorem pure (a : α) : (Pure.pure a : Record α).Checked := fun _ _ _ _ _ _ h => nomatch h

theorem fieldOr (name : String) (default? : Option α) (r : Reader α) :
    (Record.fieldOr name default? r).Checked := by
  intro acc ms a h k check hcheck s hs
  rw [Record.fieldOr, List.lookup_cons, List.lookup_nil] at hcheck
  split at hcheck
  · rename_i hk
    obtain rfl := Option.some.inj hcheck
    rw [eq_of_beq hk] at hs
    simp only [Record.fieldOr, hs] at h
    simp only [h]
    rfl
  · cases hcheck

theorem seq (hF : F.Checked) (hR : R.Checked) : (F <*> R).Checked := by
  intro acc ms b h k check hcheck s hs
  obtain ⟨g, a, hg, ha, -⟩ := ofMembers_seq.mp h
  have hfields : (F <*> R).fields.lookup k = (F.fields.lookup k).or (R.fields.lookup k) :=
    List.lookup_append
  rw [hfields, Option.or_eq_some_iff] at hcheck
  rcases hcheck with hcheck | ⟨-, hcheck⟩
  · exact hF hg hcheck hs
  · exact hR ha hcheck hs

theorem map (f : α → β) (hR : R.Checked) : (f <$> R).Checked := seq (pure f) hR

end Checked

/-- **Records agree**: they have the same fields, and from members and from items the one reads a
value exactly where the other reads its image. -/
structure Embeds (R : Record α) (R' : Record β) (f : α → β) : Prop where
  names : R.names = R'.names
  checked : R.Checked ∧ R'.Checked
  ofMembers : ∀ {acc : Access} {ms : Members} {a : α},
    R.ofMembers acc ms = .ok a ↔ R'.ofMembers acc ms = .ok (f a)
  ofItems : ∀ (expected expected' : String) {acc : Access} {closed : Bool} {i : ℕ}
    {items : List Scan} {a : α} {rest : ℕ × List Scan},
    R.ofItems expected acc closed i items = .ok (a, rest) ↔
      R'.ofItems expected' acc closed i items = .ok (f a, rest)

theorem Embeds.fieldOr (name : String) (default? : Option α) {r : Reader α} {r' : Reader β}
    (h : r.Embeds r' f) (hf : f.Injective) :
    (Record.fieldOr name default? r).Embeds (Record.fieldOr name (default?.map f) r') f where
  names := rfl
  checked := ⟨Checked.fieldOr _ _ _, Checked.fieldOr _ _ _⟩
  ofMembers {acc ms a} := by
    simp only [Record.fieldOr]
    cases ms.lookup (some name) with
    | some s => exact h acc s a
    | none =>
      cases default? with
      | none => simp [unfit]
      | some d => simp [hf.eq_iff]
  ofItems _ _ {acc closed i items a rest} := by
    simp only [Record.fieldOr]
    cases items with
    | cons s items =>
      simp only [bind_eq_ok]
      constructor
      · rintro ⟨b, hb, h'⟩
        obtain ⟨rfl, rfl⟩ := Prod.mk.inj (Except.ok.inj h')
        exact ⟨f b, (h acc s b).mp hb, rfl⟩
      · rintro ⟨b, hb, h'⟩
        obtain ⟨rfl, rfl⟩ := Prod.mk.inj (Except.ok.inj h')
        exact ⟨a, (h acc s a).mpr hb, rfl⟩
    | nil =>
      cases default? with
      | none => cases closed <;> simp [unfit]
      | some d => cases closed <;> simp [hf.eq_iff]

/-! ### Objects and arrays -/

theorem lookup_cons_of_ne {n k : String} (h : n ≠ k) (s : Scan) (ms : Members) :
    ((some k, s) :: ms).lookup (some n) = ms.lookup (some n) := by
  have hne : (some n == some k) = false := by simpa using h
  rw [List.lookup_cons, hne]

/-- **The checks of a record, from those of another with the same fields**, if the members at which
its own fields look pass them. A member beyond these has a name that stood before, and is refused by
both. -/
theorem checkMembers_of_names (hnames : R.names = R'.names) {seen : List String}
    (h : R.checkMembers acc seen ms = .ok ())
    (hcheck : ∀ {k : String} {check : Access → Scan → Result Unit} {s : Scan}, k ∉ seen →
      R'.fields.lookup k = some check → ms.lookup (some k) = some s → check acc s = .ok ()) :
    R'.checkMembers acc seen ms = .ok () := by
  induction ms generalizing seen with
  | nil => rfl
  | cons m ms ih =>
    obtain ⟨_ | k, s⟩ := m
    · cases h
    have hfields : R.fields.lookup k = none ↔ R'.fields.lookup k = none := by
      rw [lookup_eq_none_iff_notMem, lookup_eq_none_iff_notMem]
      exact Iff.of_eq (congrArg (k ∉ ·) hnames)
    simp only [checkMembers] at h ⊢
    cases hk : R.fields.lookup k with
    | none =>
      -- No field of either: both pass the member over, and no field looks at it.
      have hk' := hfields.mp hk
      rw [hk] at h
      rw [hk']
      simp only at h ⊢
      split at h
      · rename_i hskips
        rw [if_pos hskips]
        refine ih h fun {n check s'} hn hcheck' hs' => hcheck hn hcheck' ?_
        have hne : n ≠ k := by
          rintro rfl
          cases hk'.symm.trans hcheck'
        rwa [lookup_cons_of_ne hne]
      · cases h
    | some check =>
      obtain ⟨check', hk'⟩ : ∃ check', R'.fields.lookup k = some check' := by
        rw [← Option.ne_none_iff_exists', ne_eq, ← hfields, hk]
        exact Option.some_ne_none _
      rw [hk] at h
      rw [hk']
      simp only at h ⊢
      split at h
      · cases h
      · -- A field of both, seen for the first time: its own check is among those that pass.
        rename_i hseen
        obtain ⟨-, -, h⟩ := bind_eq_ok.mp h
        rw [if_neg hseen, hcheck hseen hk' List.lookup_cons_self]
        refine ih h fun {n check s'} hn hcheck' hs' => ?_
        rw [List.mem_cons, not_or] at hn
        refine hcheck hn.2 hcheck' ?_
        rwa [lookup_cons_of_ne hn.1]

theorem readMembers_eq_ok {a : α} : R.readMembers acc ms closed = .ok a ↔
    R.checkMembers acc [] ms = .ok () ∧ closed = true ∧ R.ofMembers acc ms = .ok a := by
  unfold readMembers
  rw [bind_eq_ok]
  constructor
  · rintro ⟨⟨⟩, hcheck, h⟩
    split at h
    · rename_i hclosed
      exact ⟨hcheck, hclosed, h⟩
    · exact nomatch h
  · rintro ⟨hcheck, hclosed, h⟩
    exact ⟨(), hcheck, by rw [if_pos hclosed, h]⟩

/-- What may be left of an array behind the last field: nothing, and in a text the array ends. -/
def Ends (acc : Access) (closed : Bool) (rest : List Scan) : Prop :=
  match acc with
  | .streamed _ => (rest.isEmpty && closed) = true
  | .buffered => rest.isEmpty = true

theorem readItems_eq_ok {title : String} {a : α} : R.readItems title acc items closed = .ok a ↔
    ∃ rest, R.ofItems (title ++ " with " ++ elements R.fields.length) acc closed 0 items =
      .ok (a, rest) ∧ Ends acc closed rest.2 := by
  unfold readItems
  simp only [bind_eq_ok]
  constructor
  · rintro ⟨⟨b, rest⟩, hb, h⟩
    cases acc <;>
    · simp only at h
      split at h
      · rename_i hends
        obtain rfl := Except.ok.inj h
        exact ⟨rest, hb, hends⟩
      · exact nomatch h
  · rintro ⟨rest, ha, hends⟩
    refine ⟨(a, rest), ha, ?_⟩
    cases acc <;> exact if_pos hends

namespace Embeds

theorem readMembers (h : R.Embeds R' f) {a : α} :
    R.readMembers acc ms closed = .ok a ↔ R'.readMembers acc ms closed = .ok (f a) := by
  rw [readMembers_eq_ok, readMembers_eq_ok, ← h.ofMembers]
  refine and_congr_left fun ⟨_, ha⟩ => ?_
  constructor
  · intro hcheck
    refine checkMembers_of_names h.names hcheck fun _ hk hs => ?_
    exact h.checked.2 (h.ofMembers.mp ha) hk hs
  · intro hcheck
    exact checkMembers_of_names h.names.symm hcheck fun _ hk hs => h.checked.1 ha hk hs

theorem readItems (h : R.Embeds R' f) (title title' : String) {a : α} :
    R.readItems title acc items closed = .ok a ↔
      R'.readItems title' acc items closed = .ok (f a) := by
  rw [readItems_eq_ok, readItems_eq_ok]
  exact exists_congr fun _ => and_congr_left fun _ => h.ofItems _ _

/-- **Records agree** as readers, whatever they are called in messages. -/
theorem read (h : R.Embeds R' f) (title title' : String) :
    (R.read title).Embeds (R'.read title') f := by
  intro acc s a
  unfold Record.read
  split
  · simp only [bind_eq_ok, h.readMembers]
  · simp only [bind_eq_ok, h.readItems title title']
  · exact iff_of_false (mismatch_ne_ok _ _ _) (mismatch_ne_ok _ _ _)

end Embeds

end Record

/-! ## Whole texts -/

theorem Reader.Embeds.read {α β : Type} {r : Reader α} {r' : Reader β} {f : α → β}
    (h : r.Embeds r' f) (text : String) (a : α) :
    Json.read r text = .ok a ↔ Json.read r' text = .ok (f a) := by
  unfold Json.read
  generalize Json.scan text = scanned
  simp only [bind_eq_ok]
  constructor
  · rintro ⟨b, hb, hended⟩
    split at hended
    · rename_i h'
      obtain rfl := Except.ok.inj hended
      exact ⟨f b, (h _ _ b).mp hb, if_pos h'⟩
    · exact nomatch hended
  · rintro ⟨b, hb, hended⟩
    split at hended
    · rename_i h'
      obtain rfl := Except.ok.inj hended
      exact ⟨a, (h _ _ a).mpr hb, if_pos h'⟩
    · exact nomatch hended

end HpGl.Json
