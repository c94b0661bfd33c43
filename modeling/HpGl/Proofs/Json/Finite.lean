import HpGl.Json.Reader
import HpGl.Proofs.Json.Number

/-!
# The doubles of what is read

A number of a text beyond the doubles is a fault, so whatever is read holds finite doubles only.

* `Scan.Bounded`: the numbers of what was scanned are bounded.
* `scanValue_bounded`: the numbers of any text are.
* `Reader.Yields`, `Record.Yields`, `Variant.Yields`: what a reader makes of bounded numbers.
* `Reader.Yields.list`, `Record.Yields.seq`, `Reader.Yields.tagged`: readers from smaller ones.
* **`Reader.Yields.read`**: whole texts.
-/

namespace HpGl.Json

/-! ## What is scanned -/

namespace Scan

mutual

/-- **The numbers are bounded**: whole ones have sixty-four bits and a sign, doubles are finite. -/
def Bounded : Scan → Prop
  | integer n => n.natAbs < 0x10000000000000000
  | real x => x.isFinite = true
  | array items _ => ItemsBounded items
  | object members _ => MembersBounded members
  | null | boolean _ | overflow | string _ | malformed => True

/-- The numbers of the items are bounded. -/
def ItemsBounded : List Scan → Prop
  | [] => True
  | s :: ss => s.Bounded ∧ ItemsBounded ss

/-- The numbers of the members are bounded. -/
def MembersBounded : Members → Prop
  | [] => True
  | (_, s) :: ms => s.Bounded ∧ MembersBounded ms

end

theorem MembersBounded.lookup {ms : Members} {k : Option String} {s : Scan} (h : MembersBounded ms)
    (hs : ms.lookup k = some s) : s.Bounded := by
  induction ms with
  | nil => exact nomatch hs
  | cons m ms ih =>
    obtain ⟨n, t⟩ := m
    obtain ⟨ht, hms⟩ := h
    rw [List.lookup_cons] at hs
    split at hs
    · obtain rfl := Option.some.inj hs
      exact ht
    · exact ih hms hs

theorem ofDecimal_bounded (negative : Bool) (d : Decimal) : (ofDecimal negative d).Bounded := by
  unfold ofDecimal
  simp only
  split
  · rename_i hx
    unfold Bounded
    split
    · exact Binary.isFinite_neg hx
    · exact hx
  · trivial

theorem ofDigits_bounded (negative : Bool) (ds : List Char) : (ofDigits negative ds).Bounded := by
  unfold ofDigits
  simp only
  split
  · split
    · exact ofDecimal_bounded _ _
    · unfold Bounded
      omega
  · split
    · unfold Bounded
      omega
    · exact ofDecimal_bounded _ _

end Scan

open Scan

theorem scanNumber_bounded {cs rest : List Char} {s : Scan} (h : scanNumber cs = some (s, rest)) :
    s.Bounded := by
  unfold scanNumber at h
  simp only [Option.bind_eq_bind] at h
  -- with a minus and without
  split at h
  all_goals
    split at h
    · exact nomatch h
    · obtain ⟨⟨f, cs₁⟩, -, h⟩ := Option.bind_eq_some_iff.mp h
      obtain ⟨⟨e, cs₂⟩, -, h⟩ := Option.bind_eq_some_iff.mp h
      simp only at h
      split at h
      · obtain rfl := (Prod.mk.inj (Option.some.inj h)).1
        exact ofDigits_bounded _ _
      · obtain rfl := (Prod.mk.inj (Option.some.inj h)).1
        exact ofDecimal_bounded _ _

mutual

/-- **The numbers of any text are bounded**, of a faulty one too. -/
theorem scanValue_bounded : ∀ (fuel : ℕ) (cs : List Char), (scanValue fuel cs).1.Bounded
  | 0, _ => trivial
  | fuel + 1, cs => by
    rw [scanValue]
    split
    · trivial
    · trivial
    · trivial
    · split <;> trivial
    · split
      · trivial
      · exact scanItems_bounded fuel _
    · split
      · trivial
      · exact scanMembers_bounded fuel _
    · split
      · rename_i h
        exact scanNumber_bounded h
      · trivial

theorem scanItems_bounded : ∀ (fuel : ℕ) (cs : List Char), ItemsBounded (scanItems fuel cs).1
  | 0, _ => trivial
  | fuel + 1, cs => by
    have hvalue := scanValue_bounded fuel cs
    rw [scanItems]
    split
    · rename_i h
      rw [h] at hvalue
      exact ⟨hvalue, trivial⟩
    · rename_i h
      rw [h] at hvalue
      split
      · exact ⟨hvalue, scanItems_bounded fuel _⟩
      · exact ⟨hvalue, trivial⟩
      · exact ⟨hvalue, trivial⟩

theorem scanMembers_bounded : ∀ (fuel : ℕ) (cs : List Char), MembersBounded (scanMembers fuel cs).1
  | 0, _ => trivial
  | fuel + 1, cs => by
    rw [scanMembers]
    split
    · split
      · trivial
      · split
        · rename_i cs _
          have hvalue := scanValue_bounded fuel cs
          split
          · rename_i h
            rw [h] at hvalue
            exact ⟨hvalue, trivial⟩
          · rename_i h
            rw [h] at hvalue
            split
            · exact ⟨hvalue, scanMembers_bounded fuel _⟩
            · exact ⟨hvalue, trivial⟩
            · exact ⟨hvalue, trivial⟩
        · exact ⟨trivial, trivial⟩
    · trivial

end

/-! ## Results -/

section Results

variable {ε α β : Type}

theorem bind_eq_ok {x : Except ε α} {f : α → Except ε β} {b : β} :
    x >>= f = .ok b ↔ ∃ a, x = .ok a ∧ f a = .ok b := by
  cases x with
  | error e => exact ⟨nofun, fun ⟨_, h, _⟩ => nomatch h⟩
  | ok a => exact ⟨fun h => ⟨a, rfl, h⟩, fun ⟨_, h, hf⟩ => Except.ok.inj h ▸ hf⟩

theorem map_eq_ok {x : Except ε α} {f : α → β} {b : β} :
    x.map f = .ok b ↔ ∃ a, x = .ok a ∧ f a = b := by
  cases x with
  | error e => exact ⟨nofun, fun ⟨_, h, _⟩ => nomatch h⟩
  | ok a =>
    exact ⟨fun h => ⟨a, rfl, Except.ok.inj h⟩, fun ⟨_, h, hf⟩ => Except.ok.inj h ▸ congrArg _ hf⟩

theorem eq_ok_of_toOption {x : Except ε α} {a : α} (h : x.toOption = some a) : x = .ok a := by
  cases x with
  | error e => exact nomatch h
  | ok b => exact congrArg Except.ok (Option.some.inj h)

theorem malformed_ne_ok (a : α) : (.error .malformed : Result α) ≠ .ok a := nofun

theorem unfit_ne_ok (f : Fault) (a : α) : unfit f ≠ .ok a := nofun

theorem mismatch_ne_ok (s : Scan) (expected : String) (a : α) : mismatch s expected ≠ .ok a := by
  unfold mismatch
  split <;> exact nofun

end Results

/-! ## Readers -/

/-- **What a reader yields from bounded numbers has a property.** -/
def Reader.Yields {α : Type} (r : Reader α) (P : α → Prop) : Prop :=
  ∀ ⦃acc : Access⦄ ⦃s : Scan⦄ ⦃a : α⦄, s.Bounded → r acc s = .ok a → P a

namespace Reader.Yields

variable {α : Type} {r : Reader α} {P : α → Prop}

theorem any (r : Reader α) : r.Yields fun _ => True := fun _ _ _ _ _ => trivial

theorem mono {Q : α → Prop} (h : ∀ a, P a → Q a) (hr : r.Yields P) : r.Yields Q :=
  fun _ _ _ hs ha => h _ (hr hs ha)

theorem real : Json.real.Yields fun x => x.isFinite = true := by
  intro acc s x hs h
  unfold Json.real at h
  split at h
  · obtain rfl := Except.ok.inj h
    exact Binary.ofInt_isFinite hs
  · obtain rfl := Except.ok.inj h
    exact hs
  · exact absurd h (mismatch_ne_ok _ _ _)

theorem optional (hr : r.Yields P) : (Json.optional r).Yields fun o => ∀ a ∈ o, P a := by
  intro acc s o hs h
  unfold Json.optional at h
  split at h
  · obtain rfl := Except.ok.inj h
    exact nofun
  · obtain ⟨a, ha, rfl⟩ := map_eq_ok.mp h
    rintro b ⟨⟩
    exact hr hs ha

theorem items (hr : r.Yields P) {acc : Access} {items : List Scan} {as : List α}
    (hs : ItemsBounded items) (h : items.mapM (r acc) = .ok as) : ∀ a ∈ as, P a := by
  induction items generalizing as with
  | nil =>
    obtain rfl := Except.ok.inj h
    exact nofun
  | cons s ss ih =>
    rw [List.mapM_cons] at h
    obtain ⟨a, ha, h⟩ := bind_eq_ok.mp h
    obtain ⟨as, has, h⟩ := bind_eq_ok.mp h
    obtain rfl := Except.ok.inj h
    exact List.forall_mem_cons.mpr ⟨hr hs.1 ha, ih hs.2 has⟩

theorem list (hr : r.Yields P) : (Json.list r).Yields fun as => ∀ a ∈ as, P a := by
  intro acc s as hs h
  unfold Json.list at h
  split at h
  · obtain ⟨inner, -, h⟩ := bind_eq_ok.mp h
    obtain ⟨xs, hxs, h⟩ := bind_eq_ok.mp h
    split at h
    · obtain rfl := Except.ok.inj h
      exact hr.items hs hxs
    · exact nomatch h
  · exact absurd h (mismatch_ne_ok _ _ _)

end Reader.Yields

/-! ## Records -/

/-- **What a record yields from bounded numbers has a property**, from an object and from the head
of an array, and the numbers of the rest of the array are still bounded. -/
structure Record.Yields {α : Type} (R : Record α) (P : α → Prop) : Prop where
  ofMembers : ∀ {acc : Access} {ms : Members} {a : α},
    MembersBounded ms → R.ofMembers acc ms = .ok a → P a
  ofItems : ∀ {expected : String} {acc : Access} {closed : Bool} {i j : ℕ} {items rest : List Scan}
    {a : α}, ItemsBounded items → R.ofItems expected acc closed i items = .ok (a, j, rest) →
      P a ∧ ItemsBounded rest

namespace Record.Yields

variable {α β : Type} {F : Record (α → β)} {R : Record α} {r : Reader α} {P : α → Prop}
  {Q : β → Prop}

theorem pure {a : α} (h : P a) : (Pure.pure a : Record α).Yields P where
  ofMembers _ ha := Except.ok.inj ha ▸ h
  ofItems hs ha := by
    obtain ⟨rfl, -, rfl⟩ := by simpa using Except.ok.inj ha
    exact ⟨h, hs⟩

theorem fieldOr (name : String) {default? : Option α} (hr : r.Yields P)
    (hdefault : ∀ a ∈ default?, P a) : (Record.fieldOr name default? r).Yields P where
  ofMembers hms ha := by
    simp only [Record.fieldOr] at ha
    split at ha
    · rename_i hs
      exact hr (hms.lookup hs) ha
    · obtain rfl := Except.ok.inj ha
      exact hdefault _ rfl
    · exact nomatch ha
  ofItems hs ha := by
    simp only [Record.fieldOr] at ha
    split at ha
    · obtain ⟨b, hb, ha⟩ := bind_eq_ok.mp ha
      obtain ⟨rfl, -, rfl⟩ := by simpa using Except.ok.inj ha
      exact ⟨hr hs.1 hb, hs.2⟩
    · split at ha
      · obtain ⟨rfl, -, rfl⟩ := by simpa using Except.ok.inj ha
        exact ⟨hdefault _ rfl, trivial⟩
      · exact nomatch ha
    · split at ha <;> exact nomatch ha

theorem field (name : String) (hr : r.Yields P) : (Record.field name r).Yields P :=
  fieldOr name hr nofun

theorem optionalField (name : String) (hr : r.Yields P) :
    (Record.optionalField name r).Yields fun o => ∀ a ∈ o, P a := by
  refine fieldOr name hr.optional fun o ho => ?_
  obtain rfl := Option.some.inj ho
  exact nofun

theorem seq (hF : F.Yields fun f => ∀ a, P a → Q (f a)) (hR : R.Yields P) :
    (F <*> R).Yields Q where
  ofMembers hms hb := by
    obtain ⟨f, hf, hb⟩ := bind_eq_ok.mp hb
    obtain ⟨a, ha, hb⟩ := bind_eq_ok.mp hb
    obtain rfl := Except.ok.inj hb
    exact hF.ofMembers hms hf a (hR.ofMembers hms ha)
  ofItems hs hb := by
    obtain ⟨⟨f, i, items⟩, hf, hb⟩ := bind_eq_ok.mp hb
    obtain ⟨⟨a, j, rest⟩, ha, hb⟩ := bind_eq_ok.mp hb
    obtain ⟨rfl, -, rfl⟩ := by simpa using Except.ok.inj hb
    obtain ⟨hf, hitems⟩ := hF.ofItems hs hf
    obtain ⟨ha, hrest⟩ := hR.ofItems hitems ha
    exact ⟨hf a ha, hrest⟩

theorem map {f : α → β} (h : ∀ a, P a → Q (f a)) (hR : R.Yields P) : (f <$> R).Yields Q :=
  seq (pure h) hR

/-! ### Objects and arrays -/

theorem readMembers (hR : R.Yields P) {acc : Access} {ms : Members} {closed : Bool} {a : α}
    (hms : MembersBounded ms) (h : R.readMembers acc ms closed = .ok a) : P a := by
  obtain ⟨_, -, h⟩ := bind_eq_ok.mp h
  split at h
  · exact hR.ofMembers hms h
  · exact nomatch h

theorem readItems (hR : R.Yields P) {title : String} {acc : Access} {items : List Scan}
    {closed : Bool} {a : α} (hs : ItemsBounded items)
    (h : R.readItems title acc items closed = .ok a) : P a := by
  obtain ⟨⟨b, i, rest⟩, hb, h⟩ := bind_eq_ok.mp h
  have hP := (hR.ofItems hs hb).1
  simp only at h
  split at h
  · split at h
    · obtain rfl := Except.ok.inj h
      exact hP
    · exact nomatch h
  · split at h
    · obtain rfl := Except.ok.inj h
      exact hP
    · exact nomatch h

theorem read (hR : R.Yields P) (title : String) : (R.read title).Yields P := by
  intro acc s a hs h
  unfold Record.read at h
  split at h
  · obtain ⟨inner, -, h⟩ := bind_eq_ok.mp h
    exact hR.readMembers hs h
  · obtain ⟨inner, -, h⟩ := bind_eq_ok.mp h
    exact hR.readItems hs h
  · exact absurd h (mismatch_ne_ok _ _ _)

end Record.Yields

/-! ## Choices -/

/-- **What an alternative yields from bounded numbers has a property.** -/
structure Variant.Yields {α : Type} (v : Variant α) (P : α → Prop) : Prop where
  ofMembers : ∀ {ms : Members} {a : α}, MembersBounded ms → v.ofMembers ms = .ok a → P a
  ofItems : ∀ {items : List Scan} {a : α}, ItemsBounded items → v.ofItems items = .ok a → P a

section Choices

variable {α : Type} {P : α → Prop}

theorem Variant.Yields.unit (tag : String) {a : α} (h : P a) : (Variant.unit tag a).Yields P where
  ofMembers _ ha := Except.ok.inj ha ▸ h
  ofItems _ ha := by
    simp only [Variant.unit] at ha
    split at ha
    · exact Except.ok.inj ha ▸ h
    · exact nomatch ha

theorem Variant.Yields.record (tag title : String) {R : Record α} (hR : R.Yields P) :
    (Variant.record tag title R).Yields P where
  ofMembers hms ha := hR.readMembers hms ha
  ofItems hs ha := hR.readItems hs ha

variable {variants : List (Variant α)}

theorem mem_of_readTag {acc : Access} {s : Scan} {v : Variant α}
    (h : readTag variants acc s = .ok v) : v ∈ variants := by
  unfold readTag at h
  split at h
  · split at h
    · rename_i hv
      obtain rfl := Except.ok.inj h
      exact List.mem_of_find?_eq_some hv
    · exact nomatch h
  · split at h
    · exact absurd h (mismatch_ne_ok _ _ _)
    · split at h
      · rename_i hv
        obtain rfl := Except.ok.inj h
        exact List.mem_of_getElem? hv
      · exact nomatch h
  · exact absurd h (mismatch_ne_ok _ _ _)

theorem takeTag_bounded {key : String} {acc : Access} {ms rest : Members}
    {v? w? : Option (Variant α)} (hms : MembersBounded ms) (hv : ∀ v ∈ v?, v ∈ variants)
    (h : takeTag variants key acc v? ms = .ok (w?, rest)) :
    (∀ v ∈ w?, v ∈ variants) ∧ MembersBounded rest := by
  induction ms generalizing v? w? rest with
  | nil =>
    obtain ⟨rfl, rfl⟩ := Prod.mk.inj (Except.ok.inj h)
    exact ⟨hv, trivial⟩
  | cons m ms ih =>
    obtain ⟨k, s⟩ := m
    obtain ⟨hs, hms⟩ := hms
    cases k with
    | none => exact nomatch h
    | some k =>
      rw [takeTag] at h
      split at h
      · split at h
        · exact nomatch h
        · obtain ⟨v, htag, h⟩ := bind_eq_ok.mp h
          refine ih hms ?_ h
          rintro w ⟨⟩
          exact mem_of_readTag htag
      · split at h
        · obtain ⟨⟨u?, rest'⟩, hrest, h⟩ := bind_eq_ok.mp h
          obtain ⟨rfl, rfl⟩ := Prod.mk.inj (Except.ok.inj h)
          obtain ⟨hu, hbounded⟩ := ih hms hv hrest
          exact ⟨hu, hs, hbounded⟩
        · exact nomatch h

theorem Reader.Yields.tagged {key title : String} (h : ∀ v ∈ variants, v.Yields P) :
    (Json.tagged variants key title).Yields P := by
  intro acc s a hs ha
  unfold Json.tagged at ha
  split at ha
  · obtain ⟨inner, -, ha⟩ := bind_eq_ok.mp ha
    obtain ⟨⟨v?, rest⟩, htake, ha⟩ := bind_eq_ok.mp ha
    have hnone : ∀ v ∈ (none : Option (Variant α)), v ∈ variants := nofun
    obtain ⟨hv, hrest⟩ := takeTag_bounded hs hnone htake
    simp only at ha
    split at ha
    · split at ha
      · exact (h _ (hv _ rfl)).ofMembers hrest ha
      · exact nomatch ha
    · exact nomatch ha
  · obtain ⟨_, -, ha⟩ := bind_eq_ok.mp ha
    split at ha <;> exact nomatch ha
  · obtain ⟨inner, -, ha⟩ := bind_eq_ok.mp ha
    obtain ⟨v, htag, ha⟩ := bind_eq_ok.mp ha
    split at ha
    · exact (h v (mem_of_readTag htag)).ofItems hs.2 ha
    · exact nomatch ha
  · exact absurd ha (mismatch_ne_ok _ _ _)

end Choices

/-! ## Whole texts -/

theorem Reader.Yields.read {α : Type} {r : Reader α} {P : α → Prop} (hr : r.Yields P)
    {text : String} {a : α} (h : Json.read r text = .ok a) : P a := by
  have hs : (Json.scan text).1.Bounded := by
    have hvalue := scanValue_bounded (2 * text.toList.length + 2) text.toList
    simp only [Json.scan]
    split
    all_goals
      rename_i hscan
      rw [hscan] at hvalue
      exact hvalue
  unfold Json.read at h
  generalize Json.scan text = scanned at hs h
  obtain ⟨b, hb, h⟩ := bind_eq_ok.mp h
  split at h
  · obtain rfl := Except.ok.inj h
    exact hr hs hb
  · exact nomatch h

end HpGl.Json
