import HpGl.Proofs.Json.Edits

/-!
# Readers that do not see edits

What is read from an object depends on the members that its type declares, and on no more. Readers
are put together from smaller ones, and so is the proof: a record does not see the edits of its
members if no field sees those of its own, a choice does not see them if no alternative does.

* `Reader.Respects`: a reader does not see an edit; `Reader.Respects.optional`, `.list`.
* **`Record.readMembers_buffered`**: what a record is read from, if it was taken in before.
* `Record.Follows`, `Variant.Follows`: records and alternatives from their fields.
* **`takeTag_eq_ok`**: what a choice is read from.
* **`Record.Follows.read`**, **`Reader.Respects.tagged`**: records and choices do not see edits.
* **`tagged_once`**: what a choice declares does not stand twice where it is read.
* `Reader.Respects.run`, `read_eq_ok`, `Reader.Respects.read`: many edits, whole texts.
-/

namespace HpGl.Json

open Relation (ReflGen)

/-! ## Readers -/

/-- **A reader does not see an edit.** -/
def Reader.Respects {α : Type} (r : Reader α) (acc : Access) (E : Edit) : Prop :=
  ∀ ⦃s s' : Scan⦄ ⦃a : α⦄, E.step acc s s' → r acc s = .ok a → r acc s' = .ok a

namespace Reader.Respects

variable {α : Type} {r : Reader α} {acc : Access} {E : Edit}

theorem fixed (r : Reader α) (acc : Access) : r.Respects acc .fixed := nofun

theorem optional_of_ne_null {s : Scan} (hs : s ≠ .null) :
    Json.optional r acc s = (r acc s).map some := by
  cases s <;> first | rfl | contradiction

theorem optional (h : r.Respects acc E) : (Json.optional r).Respects acc E := by
  intro s s' o hstep ho
  obtain ⟨hs, hs'⟩ := E.ne_null hstep
  rw [optional_of_ne_null hs] at ho
  rw [optional_of_ne_null hs']
  obtain ⟨a, ha, rfl⟩ := map_eq_ok.mp ho
  exact map_eq_ok.mpr ⟨a, h hstep ha, rfl⟩

theorem items {Es : List Edit} {items items' : List Scan} {as : List α}
    (h : ∀ E ∈ Es, r.Respects acc E) (hstep : ItemsStep acc Es items items')
    (has : items.mapM (r acc) = .ok as) : items'.mapM (r acc) = .ok as := by
  induction hstep generalizing as with
  | head hhead =>
    rw [List.mapM_cons, bind_eq_ok] at has ⊢
    obtain ⟨a, ha, has⟩ := has
    exact ⟨a, h _ List.mem_cons_self hhead ha, has⟩
  | tail _ ih =>
    rw [List.mapM_cons, bind_eq_ok] at has ⊢
    obtain ⟨a, ha, has⟩ := has
    obtain ⟨as, has, hcons⟩ := bind_eq_ok.mp has
    have hrest := ih (List.forall_mem_cons.mp h).2 has
    exact ⟨a, ha, bind_eq_ok.mpr ⟨as, hrest, hcons⟩⟩

theorem list (h : r.Respects .buffered E) : (Json.list r).Respects .buffered E.items := by
  rintro _ _ as ⟨henter, hstep⟩ has
  obtain rfl := Except.ok.inj henter
  simp only [Json.list, bind_eq_ok] at has ⊢
  obtain ⟨inner, henter, xs, hxs, has⟩ := has
  obtain rfl := Except.ok.inj henter
  exact ⟨.buffered, rfl, xs, items (fun F hF => List.eq_of_mem_replicate hF ▸ h) hstep hxs, has⟩

end Reader.Respects

/-! ## Records -/

namespace Record

variable {α β : Type} {F : Record (α → β)} {R : Record α} {acc : Access} {ms ms' : Members}
  {closed : Bool} {inside : String → Edit}

/-- The value of a member can be read, if it is that of a field. -/
def Passes (R : Record α) (m : Option String × Scan) : Prop :=
  ∀ k check, m.1 = some k → R.fields.lookup k = some check → check .buffered m.2 = .ok ()

section Checks

variable {seen : List String} {n : String} {t : Scan} {check : Access → Scan → Result Unit}

theorem passes_other (hn : n ∉ R.names) : R.Passes (some n, t) := by
  rintro k check ⟨⟩ hcheck
  exact absurd (mem_names_iff.mpr ⟨check, hcheck⟩) hn

theorem passes_field (hn : R.fields.lookup n = some check) :
    R.Passes (some n, t) ↔ check .buffered t = .ok () := by
  constructor
  · exact fun h => h n check rfl hn
  · rintro h k check' ⟨⟩ hcheck
    rwa [← Option.some.inj (hn.symm.trans hcheck)]

/-- What was taken in before can be passed over. -/
theorem checkMembers_cons_other (hn : n ∉ R.names) :
    R.checkMembers .buffered seen ((some n, t) :: ms) = R.checkMembers .buffered seen ms := by
  simp only [checkMembers, lookup_eq_none_iff_notMem.mpr hn]
  exact if_pos rfl

theorem checkMembers_cons_field (hn : R.fields.lookup n = some check) :
    R.checkMembers .buffered seen ((some n, t) :: ms) = .ok () ↔
      n ∉ seen ∧ R.Passes (some n, t) ∧ R.checkMembers .buffered (n :: seen) ms = .ok () := by
  rw [passes_field hn]
  simp only [checkMembers, hn]
  split
  · rename_i hseen
    exact iff_of_false (unfit_ne_ok _ _) fun h => h.1 hseen
  · rename_i hseen
    rw [bind_eq_ok, and_iff_right hseen]
    constructor
    · rintro ⟨_, hhead, h⟩
      exact ⟨hhead, h⟩
    · rintro ⟨hhead, h⟩
      exact ⟨(), hhead, h⟩

/-- Each field stands there once, and not at all if it was seen before. -/
def Single (R : Record α) (seen : List String) (ms : Members) : Prop :=
  ∀ k ∈ R.names, times k ms ≤ if k ∈ seen then 0 else 1

theorem single_cons_other (hn : n ∉ R.names) :
    R.Single seen ((some n, t) :: ms) ↔ R.Single seen ms := by
  refine forall₂_congr fun k hk => ?_
  have hne : (some n, t).1 ≠ some k := fun e => hn (Option.some.inj e ▸ hk)
  rw [times_cons_of_ne hne]

theorem times_cons_le_iff (hseen : n ∉ seen) {k : String} :
    times k ((some n, t) :: ms) ≤ (if k ∈ seen then 0 else 1) ↔
      times k ms ≤ if k ∈ n :: seen then 0 else 1 := by
  by_cases hk : k = n
  · subst hk
    rw [times_cons_self, if_neg hseen, if_pos List.mem_cons_self]
    omega
  · have hne : (some n, t).1 ≠ some k := fun e => hk (Option.some.inj e).symm
    rw [times_cons_of_ne hne]
    simp only [List.mem_cons, or_iff_right hk]

theorem single_cons_field (hn : n ∈ R.names) :
    R.Single seen ((some n, t) :: ms) ↔ n ∉ seen ∧ R.Single (n :: seen) ms := by
  by_cases hseen : n ∈ seen
  · refine iff_of_false (fun h => ?_) fun h => h.1 hseen
    have hle := h n hn
    rw [times_cons_self, if_pos hseen] at hle
    omega
  · rw [and_iff_right hseen]
    exact forall₂_congr fun k _ => times_cons_le_iff hseen

end Checks

/-- **The checks of the members of a record that was taken in before**: their names are texts, no
field stands there twice, and each value can be read by its field. -/
theorem checkMembers_buffered {seen : List String} :
    R.checkMembers .buffered seen ms = .ok () ↔
      (∀ m ∈ ms, m.1.isSome = true) ∧ R.Single seen ms ∧ ∀ m ∈ ms, R.Passes m := by
  induction ms generalizing seen with
  | nil => exact iff_of_true rfl ⟨nofun, fun _ _ => Nat.zero_le _, nofun⟩
  | cons m ms ih =>
    obtain ⟨_ | n, t⟩ := m
    · exact iff_of_false nofun fun h => nomatch h.1 _ List.mem_cons_self
    rw [List.forall_mem_cons, List.forall_mem_cons, and_iff_right (Option.isSome_some (a := n))]
    by_cases hn : n ∈ R.names
    · obtain ⟨check, hcheck⟩ := mem_names_iff.mp hn
      rw [checkMembers_cons_field hcheck, single_cons_field hn, ih]
      tauto
    · rw [checkMembers_cons_other hn, single_cons_other hn, ih, and_iff_right (passes_other hn)]

/-- **What a record is read from, if it was taken in before.** -/
theorem readMembers_buffered (hR : R.Checked) {a : α} :
    R.readMembers .buffered ms closed = .ok a ↔
      closed = true ∧ (∀ m ∈ ms, m.1.isSome = true) ∧ (∀ k ∈ R.names, times k ms ≤ 1) ∧
        R.ofMembers .buffered ms = .ok a := by
  rw [readMembers_eq_ok, checkMembers_buffered]
  constructor
  · rintro ⟨⟨hnames, honce, -⟩, hclosed, ha⟩
    exact ⟨hclosed, hnames, honce, ha⟩
  · rintro ⟨hclosed, hnames, honce, ha⟩
    refine ⟨⟨hnames, honce, ?_⟩, hclosed, ha⟩
    rintro ⟨_, s⟩ hm k check rfl hcheck
    -- A field that stands there once finds this very member, and has read it.
    have honce := honce k (mem_names_iff.mpr ⟨check, hcheck⟩)
    exact hR ha hcheck ((lookup_eq_some_iff_mem honce).mpr hm)

theorem ofItems_fieldOr_cons {name expected : String} {default? : Option α} {r : Reader α}
    {i j : ℕ} {s : Scan} {items rest : List Scan} {a : α} :
    (fieldOr name default? r).ofItems expected acc closed i (s :: items) = .ok (a, j, rest) ↔
      r acc s = .ok a ∧ j = i + 1 ∧ rest = items := by
  simp only [fieldOr, bind_eq_ok]
  constructor
  · rintro ⟨b, hb, h⟩
    obtain ⟨rfl, hrest⟩ := Prod.mk.inj (Except.ok.inj h)
    obtain ⟨rfl, rfl⟩ := Prod.mk.inj hrest
    exact ⟨hb, rfl, rfl⟩
  · rintro ⟨ha, rfl, rfl⟩
    exact ⟨a, ha, rfl⟩

/-! ### Records that follow edits -/

/-- **The fields of a record follow edits**: with what they find after an edit, and with the items
of an edited array, they yield what they did. The items behind theirs are left to others. -/
structure Follows (R : Record α) (inside : String → Edit) : Prop where
  checked : R.Checked
  ofMembers : ∀ {ms ms' : Members} {a : α},
    (∀ k ∈ R.names, Alike (inside k) (ms.lookup (some k)) (ms'.lookup (some k))) →
      R.ofMembers .buffered ms = .ok a → R.ofMembers .buffered ms' = .ok a
  ofItems : ∀ {expected : String} {closed : Bool} {i j : ℕ} {Es : List Edit}
    {items items' rest : List Scan} {a : α},
    ReflGen (ItemsStep .buffered (R.names.map inside ++ Es)) items items' →
      R.ofItems expected .buffered closed i items = .ok (a, j, rest) →
        ∃ rest', R.ofItems expected .buffered closed i items' = .ok (a, j, rest') ∧
          ReflGen (ItemsStep .buffered Es) rest rest'

namespace Follows

theorem pure (a : α) : (Pure.pure a : Record α).Follows inside where
  checked := Checked.pure a
  ofMembers _ h := h
  ofItems {_ _ _ _ _ _ items' _ _} hstep h := by
    obtain ⟨rfl, hrest⟩ := Prod.mk.inj (Except.ok.inj h)
    obtain ⟨rfl, rfl⟩ := Prod.mk.inj hrest
    exact ⟨items', rfl, hstep⟩

theorem fieldOr (name : String) {default? : Option α} {r : Reader α}
    (hr : r.Respects .buffered (inside name))
    (hnull : ∀ a, r .buffered .null = .ok a → default? = some a) :
    (Record.fieldOr name default? r).Follows inside where
  checked := Checked.fieldOr name default? r
  ofMembers {ms ms' a} hlook h := by
    have hname := hlook name (List.mem_singleton_self name)
    simp only [Record.fieldOr] at h ⊢
    generalize ms.lookup (some name) = o at hname h
    generalize ms'.lookup (some name) = o' at hname
    cases hname with
    | same => exact h
    | dropped => simp only [hnull a h]
    | edited hstep => exact hr hstep h
  ofItems {expected closed i j Es items items' rest a} hstep h := by
    cases hstep with
    | refl => exact ⟨rest, h, .refl⟩
    | single hstep =>
      cases hstep with
      | head hs =>
        obtain ⟨ha, rfl, rfl⟩ := ofItems_fieldOr_cons.mp h
        exact ⟨_, ofItems_fieldOr_cons.mpr ⟨hr hs ha, rfl, rfl⟩, .refl⟩
      | tail hs =>
        obtain ⟨ha, rfl, rfl⟩ := ofItems_fieldOr_cons.mp h
        exact ⟨_, ofItems_fieldOr_cons.mpr ⟨ha, rfl, rfl⟩, .single hs⟩

theorem field (name : String) {r : Reader α} (hr : r.Respects .buffered (inside name))
    (hnull : ∀ a, r .buffered .null ≠ .ok a) : (Record.field name r).Follows inside :=
  fieldOr name hr fun a h => absurd h (hnull a)

theorem optionalField (name : String) {r : Reader α} (hr : r.Respects .buffered (inside name)) :
    (Record.optionalField name r).Follows inside :=
  fieldOr name hr.optional fun _ h => congrArg some (Except.ok.inj h)

theorem seq (hF : F.Follows inside) (hR : R.Follows inside) : (F <*> R).Follows inside where
  checked := hF.checked.seq hR.checked
  ofMembers {ms ms' b} hlook h := by
    rw [Fits.names_seq] at hlook
    obtain ⟨hleft, hright⟩ := List.forall_mem_append.mp hlook
    obtain ⟨g, a, hg, ha, rfl⟩ := ofMembers_seq.mp h
    exact ofMembers_seq.mpr ⟨g, a, hF.ofMembers hleft hg, hR.ofMembers hright ha, rfl⟩
  ofItems {expected closed i j Es items items' rest b} hstep h := by
    rw [Fits.names_seq, List.map_append, List.append_assoc] at hstep
    obtain ⟨g, ⟨i', mid⟩, a, hg, ha, rfl⟩ := ofItems_seq.mp h
    obtain ⟨mid', hg', hmid⟩ := hF.ofItems hstep hg
    obtain ⟨rest', ha', hrest⟩ := hR.ofItems hmid ha
    exact ⟨rest', ofItems_seq.mpr ⟨g, (i', mid'), a, hg', ha', rfl⟩, hrest⟩

theorem map (f : α → β) (hR : R.Follows inside) : (f <$> R).Follows inside := (pure f).seq hR

theorem readMembers (hR : R.Follows inside) {a : α}
    (hstep : MembersStep (· ∈ R.names) inside .buffered ms ms')
    (h : R.readMembers .buffered ms closed = .ok a) :
    R.readMembers .buffered ms' closed = .ok a := by
  rw [readMembers_buffered hR.checked] at h ⊢
  obtain ⟨hclosed, hnames, honce, ha⟩ := h
  refine ⟨hclosed, hstep.names_isSome hnames, fun k hk => ?_, ?_⟩
  · exact (hstep.times_le hk).trans (honce k hk)
  · exact hR.ofMembers (fun k hk => hstep.alike hk (honce k hk)) ha

/-- **A record does not see edits.** -/
theorem read (hR : R.Follows inside) (title : String) :
    (R.read title).Respects .buffered (.record R.names inside) := by
  intro s s' a hstep h
  cases hstep with
  | members henter hstep =>
    obtain rfl := Except.ok.inj henter
    exact hR.readMembers hstep h
  | @items _ items items' closed henter hstep =>
    obtain rfl := Except.ok.inj henter
    change R.readItems title .buffered items closed = .ok a at h
    change R.readItems title .buffered items' closed = .ok a
    rw [readItems_eq_ok] at h ⊢
    obtain ⟨⟨j, rest⟩, ha, hends⟩ := h
    have hitems : ReflGen (ItemsStep .buffered (R.names.map inside ++ [])) items items' := by
      rw [List.append_nil]
      exact .single hstep
    obtain ⟨rest', ha', hrest⟩ := hR.ofItems hitems ha
    cases hrest with
    | refl => exact ⟨(j, rest), ha', hends⟩
    | single hstep => cases hstep

end Follows

end Record

/-! ## Choices -/

namespace Variant

variable {α : Type} {inside : String → Edit}

/-- **An alternative follows edits** of the members beside its tag, and what it declares among them
does not stand twice. -/
structure Follows (v : Variant α) (names : List String) (inside : String → Edit) : Prop where
  once : ∀ {ms : Members} {a : α}, v.ofMembers ms = .ok a → ∀ k ∈ names, times k ms ≤ 1
  ofMembers : ∀ {ms ms' : Members} {a : α}, MembersStep (· ∈ names) inside .buffered ms ms' →
    v.ofMembers ms = .ok a → v.ofMembers ms' = .ok a

theorem Follows.unit (tag : String) (a : α) : (Variant.unit tag a).Follows [] inside where
  once _ := nofun
  ofMembers _ h := h

theorem Follows.record (tag title : String) {R : Record α} (hR : R.Follows inside) :
    (Variant.record tag title R).Follows R.names inside where
  once h := ((Record.readMembers_buffered hR.checked).mp h).2.2.1
  ofMembers hstep h := hR.readMembers hstep h

end Variant

section Choices

variable {α : Type} {variants : List (Variant α)} {v : Variant α} {key : String}
  {names : String → List String} {inside : String → Edit} {acc : Access} {tag : Scan}
  {ms ms' rest : Members} {closed : Bool} {title : String}

theorem readTag_buffered (h : readTag variants acc tag = .ok v) :
    readTag variants .buffered tag = .ok v := by
  cases acc with
  | buffered => exact h
  | streamed room =>
    cases tag with
    | string t =>
      cases t with
      | some t => exact h
      | none => exact nomatch h
    | _ => exact nomatch h

theorem readTag_null : readTag variants acc .null ≠ .ok v := by
  cases acc <;> exact nofun

/-- A member beside the tag of a choice, taken in. -/
def Beside (key : String) (acc : Access) (m : Option String × Scan) : Prop :=
  m.1 ≠ some key ∧ Taken acc m

theorem takeTag_cons_beside {m : Option String × Scan} {v? w? : Option (Variant α)}
    (hm : m.1 ≠ some key) :
    takeTag variants key acc v? (m :: ms) = .ok (w?, rest) ↔
      Taken acc m ∧ ∃ others, takeTag variants key acc v? ms = .ok (w?, others) ∧
        rest = m :: others := by
  obtain ⟨_ | k, s⟩ := m
  · exact iff_of_false (malformed_ne_ok _) fun h => Bool.false_ne_true h.1.1
  have hk : k ≠ key := fun e => hm (congrArg some e)
  rw [takeTag, if_neg hk]
  split
  · rename_i htakes
    have htaken : Taken acc (some k, s) := ⟨rfl, htakes⟩
    rw [bind_eq_ok, and_iff_right htaken]
    constructor
    · rintro ⟨⟨w?, others⟩, h, hrest⟩
      obtain ⟨rfl, rfl⟩ := Prod.mk.inj (Except.ok.inj hrest)
      exact ⟨others, h, rfl⟩
    · rintro ⟨others, h, rfl⟩
      exact ⟨(w?, others), h, rfl⟩
  · rename_i htakes
    exact iff_of_false (malformed_ne_ok _) fun h => htakes h.1.2

theorem takeTag_cons_key {w? : Option (Variant α)} :
    takeTag variants key acc none ((some key, tag) :: ms) = .ok (w?, rest) ↔
      ∃ v, readTag variants acc tag = .ok v ∧
        takeTag variants key acc (some v) ms = .ok (w?, rest) := by
  rw [takeTag, if_pos rfl]
  exact bind_eq_ok

theorem takeTag_some_eq_ok {w? : Option (Variant α)} :
    takeTag variants key acc (some v) ms = .ok (w?, rest) ↔
      w? = some v ∧ rest = ms ∧ ∀ m ∈ ms, Beside key acc m := by
  induction ms generalizing rest with
  | nil =>
    rw [takeTag, Except.ok.injEq, Prod.mk.injEq, eq_comm, and_congr_right_iff]
    exact fun _ => ⟨fun h => ⟨h.symm, List.forall_mem_nil _⟩, fun h => h.1.symm⟩
  | cons m ms ih =>
    rw [List.forall_mem_cons]
    by_cases hm : m.1 = some key
    · refine iff_of_false ?_ fun h => h.2.2.1.1 hm
      obtain ⟨_, s⟩ := m
      obtain rfl := hm
      rw [takeTag, if_pos rfl]
      exact unfit_ne_ok _ _
    · rw [takeTag_cons_beside hm]
      constructor
      · rintro ⟨htaken, others, h, rfl⟩
        obtain ⟨hw, rfl, hms⟩ := ih.mp h
        exact ⟨hw, rfl, ⟨hm, htaken⟩, hms⟩
      · rintro ⟨hw, rfl, ⟨-, htaken⟩, hms⟩
        exact ⟨htaken, ms, ih.mpr ⟨hw, rfl, hms⟩, rfl⟩

/-- **What a choice is read from**: one member names the alternative, the others are taken in. -/
theorem takeTag_eq_ok :
    takeTag variants key acc none ms = .ok (some v, rest) ↔
      ∃ before tag after, ms = before ++ (some key, tag) :: after ∧ rest = before ++ after ∧
        readTag variants acc tag = .ok v ∧ ∀ m ∈ rest, Beside key acc m := by
  induction ms generalizing rest with
  | nil => exact iff_of_false nofun (by simp)
  | cons m ms ih =>
    by_cases hm : m.1 = some key
    · -- The tag is in front: nothing stands before it, as the tag would stand there again.
      obtain ⟨_, tag⟩ := m
      obtain rfl := hm
      rw [takeTag_cons_key]
      constructor
      · rintro ⟨w, htag, h⟩
        obtain ⟨hw, rfl, hms⟩ := takeTag_some_eq_ok.mp h
        obtain rfl := Option.some.inj hw
        exact ⟨[], tag, rest, rfl, rfl, htag, hms⟩
      · rintro ⟨_ | ⟨m, before⟩, tag', after, hms, rfl, htag, hbeside⟩
        · obtain ⟨hhead, rfl⟩ := List.cons.inj hms
          obtain ⟨-, rfl⟩ := Prod.mk.inj hhead
          exact ⟨v, htag, takeTag_some_eq_ok.mpr ⟨rfl, rfl, hbeside⟩⟩
        · obtain ⟨rfl, -⟩ := List.cons.inj hms
          exact absurd rfl (hbeside _ List.mem_cons_self).1
    · -- The tag comes later: the member in front is the first of those before it.
      rw [takeTag_cons_beside hm]
      constructor
      · rintro ⟨htaken, others, h, rfl⟩
        obtain ⟨before, tag, after, rfl, rfl, htag, hbeside⟩ := ih.mp h
        exact ⟨m :: before, tag, after, rfl, rfl, htag,
          List.forall_mem_cons.mpr ⟨⟨hm, htaken⟩, hbeside⟩⟩
      · rintro ⟨_ | ⟨n, before⟩, tag, after, hms, rfl, htag, hbeside⟩
        · obtain ⟨rfl, -⟩ := List.cons.inj hms
          exact absurd rfl hm
        · obtain ⟨rfl, rfl⟩ := List.cons.inj hms
          obtain ⟨⟨-, htaken⟩, hbeside⟩ := List.forall_mem_cons.mp hbeside
          exact ⟨htaken, before ++ after, ih.mpr ⟨before, tag, after, rfl, rfl, htag, hbeside⟩, rfl⟩

theorem perm_of_takeTag (h : takeTag variants key acc none ms = .ok (some v, rest)) :
    ∃ tag, ms.Perm ((some key, tag) :: rest) ∧ readTag variants acc tag = .ok v ∧
      ∀ m ∈ rest, Beside key acc m := by
  obtain ⟨before, tag, after, rfl, rfl, htag, hbeside⟩ := takeTag_eq_ok.mp h
  exact ⟨tag, List.perm_middle, htag, hbeside⟩

theorem takeTag_of_perm (h : ms.Perm ((some key, tag) :: rest))
    (htag : readTag variants acc tag = .ok v) (hbeside : ∀ m ∈ rest, Beside key acc m) :
    ∃ rest', takeTag variants key acc none ms = .ok (some v, rest') ∧ rest.Perm rest' := by
  obtain ⟨before, after, rfl⟩ := List.append_of_mem (h.mem_iff.mpr List.mem_cons_self)
  have hrest : rest.Perm (before ++ after) := (h.symm.trans List.perm_middle).cons_inv
  refine ⟨before ++ after, takeTag_eq_ok.mpr ⟨before, tag, after, rfl, rfl, htag, ?_⟩, hrest⟩
  exact fun m hm => hbeside m (hrest.mem_iff.mpr hm)

theorem perm_beside {m : Option String × Scan}
    (h : (m :: ms).Perm ((some key, tag) :: rest)) (hm : m ≠ (some key, tag)) :
    ∃ others, rest.Perm (m :: others) ∧ ms.Perm ((some key, tag) :: others) := by
  have hmem : m ∈ rest := (List.mem_cons.mp (h.mem_iff.mp List.mem_cons_self)).resolve_left hm
  obtain ⟨before, after, rfl⟩ := List.append_of_mem hmem
  refine ⟨before ++ after, List.perm_middle, ?_⟩
  have hswap : (m :: ms).Perm (m :: (some key, tag) :: (before ++ after)) :=
    h.trans ((List.perm_middle.cons _).trans (.swap _ _ _))
  exact hswap.cons_inv

/-- **A change of the members of a choice is one of those beside the tag.** -/
theorem MembersStep.beside {declared : String → Prop} (declared' : String → Prop)
    (h : MembersStep declared inside acc ms ms') (hperm : ms.Perm ((some key, tag) :: rest))
    (htag : readTag variants acc tag = .ok v) (hkey : declared key)
    (hdeclared : ∀ k, declared' k → declared k) (hfixed : inside key = .fixed) :
    ∃ others others', rest.Perm others ∧ MembersStep declared' inside acc others others' ∧
      ms'.Perm ((some key, tag) :: others') ∧
      ((∀ m ∈ rest, m.1 ≠ some key) → ∀ m ∈ others', m.1 ≠ some key) := by
  cases h with
  | permute h => exact ⟨rest, rest, .rfl, .permute .rfl, h.symm.trans hperm, id⟩
  | @insert k s _ hk hs =>
    have hne : some k ≠ some key := fun e => hk (Option.some.inj e ▸ hkey)
    refine ⟨rest, (some k, s) :: rest, .rfl, .insert (fun h => hk (hdeclared k h)) hs, ?_, ?_⟩
    · exact (hperm.cons _).trans (.swap _ _ _)
    · exact fun h => List.forall_mem_cons.mpr ⟨hne, h⟩
  | @drop k =>
    have hne : (some k, Scan.null) ≠ (some key, tag) := by
      rintro e
      obtain ⟨-, rfl⟩ := Prod.mk.inj e
      exact readTag_null htag
    obtain ⟨others, hrest, hms⟩ := perm_beside hperm hne
    refine ⟨_, others, hrest, .drop, hms, fun h m hm => h m (hrest.mem_iff.mpr ?_)⟩
    exact List.mem_cons_of_mem _ hm
  | @within k s s' _ h =>
    have hk : some k ≠ some key := by
      rintro e
      rw [Option.some.inj e, hfixed] at h
      exact h
    obtain ⟨others, hrest, hms⟩ := perm_beside hperm fun e => hk (Prod.mk.inj e).1
    refine ⟨_, (some k, s') :: others, hrest, .within h, ?_, fun h => ?_⟩
    · exact (hms.cons _).trans (.swap _ _ _)
    · have hothers := fun m hm => h m (hrest.mem_iff.mpr (List.mem_cons_of_mem _ hm))
      exact List.forall_mem_cons.mpr ⟨hk, hothers⟩

theorem tagged_object_eq_ok {a : α} :
    tagged variants key title acc (.object ms closed) = .ok a ↔
      ∃ inner v rest, acc.enter = .ok inner ∧ closed = true ∧
        takeTag variants key inner none ms = .ok (some v, rest) ∧ v.ofMembers rest = .ok a := by
  simp only [tagged, bind_eq_ok]
  constructor
  · rintro ⟨inner, henter, ⟨_ | v, rest⟩, htake, h⟩
    · split at h
      · exact absurd h (unfit_ne_ok _ _)
      · exact absurd h (malformed_ne_ok _)
    · split at h
      · rename_i hclosed
        exact ⟨inner, v, rest, henter, hclosed, htake, h⟩
      · exact absurd h (malformed_ne_ok _)
  · rintro ⟨inner, v, rest, henter, rfl, htake, h⟩
    exact ⟨inner, henter, (some v, rest), htake, h⟩

theorem mem_of_takeTag (h : takeTag variants key acc none ms = .ok (some v, rest)) :
    v ∈ variants := by
  obtain ⟨tag, -, htag, -⟩ := perm_of_takeTag h
  exact mem_of_readTag htag

/-- **A choice does not see edits**, in a text or taken in before. -/
theorem Reader.Respects.tagged (hv : ∀ v ∈ variants, v.Follows (names v.tag) inside)
    (hfixed : inside key = .fixed) :
    (Json.tagged variants key title).Respects acc (.tagged variants key names inside) := by
  rintro _ _ a ⟨henter, hstep⟩ h
  rw [tagged_object_eq_ok] at h ⊢
  obtain ⟨inner, v, rest, henter', hclosed, htake, ha⟩ := h
  obtain rfl := Except.ok.inj (henter.symm.trans henter')
  have hfollows := hv v (mem_of_takeTag htake)
  obtain ⟨tag, hperm, htag, hbeside⟩ := perm_of_takeTag htake
  have hmem := hperm.mem_iff.mpr List.mem_cons_self
  obtain ⟨others, others', hrest, hothers, hperm', hne⟩ :=
    hstep.beside (· ∈ names v.tag) hperm htag (.inl rfl)
      (fun k hk => .inr ⟨tag, v, hmem, readTag_buffered htag, hk⟩) hfixed
  have htaken : ∀ m ∈ others, Taken _ m := fun m hm => (hbeside m (hrest.mem_iff.mpr hm)).2
  obtain ⟨rest', htake', hrest'⟩ := takeTag_of_perm hperm' htag fun m hm =>
    ⟨hne (fun m hm => (hbeside m hm).1) m hm, hothers.taken htaken m hm⟩
  refine ⟨_, v, rest', henter, hclosed, htake', ?_⟩
  -- The alternative sees the members in the order of the text, before and after.
  have hbefore := hfollows.ofMembers (.permute hrest) ha
  exact hfollows.ofMembers (.permute hrest') (hfollows.ofMembers hothers.buffered hbefore)

/-- **What a choice declares does not stand twice where it is read.** -/
theorem tagged_once (hv : ∀ v ∈ variants, v.Follows (names v.tag) inside) {a : α}
    (h : tagged variants key title acc (.object ms closed) = .ok a) {k : String}
    (hk : Declares variants key names ms k) : times k ms ≤ 1 := by
  obtain ⟨inner, v, rest, -, -, htake, ha⟩ := tagged_object_eq_ok.mp h
  obtain ⟨tag, hperm, htag, hbeside⟩ := perm_of_takeTag htake
  have hrest : times key rest = 0 := by
    by_contra hpos
    obtain ⟨m, hm, hname⟩ := List.mem_map.mp (times_pos_iff.mp (Nat.pos_of_ne_zero hpos))
    exact (hbeside m hm).1 hname
  rw [times_perm hperm]
  by_cases hkey : k = key
  · subst hkey
    rw [times_cons_self, hrest]
  · have hne : (some key, tag).1 ≠ some k := fun e => hkey (Option.some.inj e).symm
    rw [times_cons_of_ne hne]
    obtain ⟨tag', w, hmem, hw, hk⟩ := hk.resolve_left hkey
    have htag' : tag' = tag := by
      rcases List.mem_cons.mp (hperm.mem_iff.mp hmem) with e | hmem
      · exact (Prod.mk.inj e).2
      · exact absurd rfl (hbeside _ hmem).1
    subst htag'
    obtain rfl := Except.ok.inj (hw.symm.trans (readTag_buffered htag))
    exact (hv w (mem_of_takeTag htake)).once ha k hk

end Choices

/-! ## Runs of edits -/

section Runs

open Relation (ReflTransGen)

variable {α : Type} {r : Reader α} {E : Edit} {acc : Access} {a : α}

theorem Reader.Respects.run (hr : r.Respects acc E) {s s' : Scan}
    (h : ReflTransGen (E.step acc) s s') (ha : r acc s = .ok a) : r acc s' = .ok a := by
  induction h with
  | refl => exact ha
  | tail _ hstep ih => exact hr hstep ih

theorem read_eq_ok {text : String} : Json.read r text = .ok a ↔
    r (.streamed maxDepth) (Json.scan text).1 = .ok a ∧ (Json.scan text).2 = true := by
  unfold Json.read
  generalize Json.scan text = scanned
  rw [bind_eq_ok]
  constructor
  · rintro ⟨b, hb, h⟩
    split at h
    · rename_i hended
      exact ⟨Except.ok.inj h ▸ hb, hended⟩
    · exact nomatch h
  · rintro ⟨ha, hended⟩
    exact ⟨a, ha, if_pos hended⟩

theorem Reader.Respects.read (hr : r.Respects (.streamed maxDepth) E) {text text' : String}
    (h : ReflTransGen (E.step (.streamed maxDepth)) (Json.scan text).1 (Json.scan text').1)
    (hended : (Json.scan text').2 = true) (ha : Json.read r text = .ok a) :
    Json.read r text' = .ok a :=
  read_eq_ok.mpr ⟨hr.run h (read_eq_ok.mp ha).1, hended⟩

end Runs

end HpGl.Json
