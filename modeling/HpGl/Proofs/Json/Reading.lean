import HpGl.Json.Reader
import HpGl.Proofs.Json.Text

/-!
# Reading what was written

Each reader takes back what is written for its type. Readers are put together from smaller ones, and
so is the proof: a record reads back if its fields do, a choice if its alternatives do.

* `Reads`: a reader takes a document for a value, wherever there is room for the document.
* `Reads.int32`, `Reads.optional_some`, `Reads.list` and so on: readers of single values.
* `Record.Fits`: members in the order of the fields of a record, each read back by its field.
* `Record.Fits.read`, `Reads.tagged`: records and choices.
* **`Reads.render`**: whole texts.
-/

namespace HpGl.Json

/-- There is room for this many arrays and objects inside each other. -/
def Access.Holds (depth : ℕ) : Access → Prop
  | streamed room => depth ≤ room
  | buffered => True

/-- **A document is read as a value**, streamed or buffered, if there is room for it. -/
structure Reads {α : Type} (r : Reader α) (depth : ℕ) (v : Value) (a : α) : Prop where
  read : ∀ {acc : Access}, acc.Holds depth → r acc v.scan = .ok a
  readable : ∀ {room : ℕ}, depth ≤ room → v.scan.readable room = true

theorem Access.Holds.enter {d : ℕ} {acc : Access} (h : acc.Holds (d + 1)) :
    ∃ inner : Access, acc.enter = .ok inner ∧ inner.Holds d := by
  cases acc with
  | streamed room =>
    obtain ⟨room, rfl⟩ := Nat.exists_eq_add_of_le' ((Nat.le_add_left 1 d).trans h)
    exact ⟨.streamed room, rfl, Nat.le_of_succ_le_succ h⟩
  | buffered => exact ⟨.buffered, rfl, trivial⟩

namespace Reads

variable {α : Type} {r : Reader α} {d : ℕ} {v : Value} {a : α}

/-! ## Single values -/

theorem int32 (n : Int32) : Reads int32 d (.integer n.toInt) n where
  read _ := by
    have hlo := n.le_toInt
    have hhi := n.toInt_le
    simp only [Json.int32, integerIn, Value.scan]
    rw [if_pos ⟨hlo, hhi⟩]
    exact congrArg Except.ok (Int32.ofInt_toInt n)
  readable _ := rfl

theorem uint8 (n : UInt8) : Reads uint8 d (.integer n.toNat) n where
  read _ := by
    have hlt := n.toNat_lt
    simp only [Json.uint8, integerIn, Value.scan]
    rw [if_pos ⟨by omega, by omega⟩]
    exact congrArg Except.ok UInt8.ofNat_toNat
  readable _ := rfl

theorem real (x : Float) : Reads real d (.real x) x := ⟨fun _ => rfl, fun _ => rfl⟩

theorem boolean (b : Bool) : Reads boolean d (.boolean b) b := ⟨fun _ => rfl, fun _ => rfl⟩

theorem string (s : String) : Reads string d (.string s) s := ⟨fun _ => rfl, fun _ => rfl⟩

theorem optional_none : Reads (optional r) d .null none := ⟨fun _ => rfl, fun _ => rfl⟩

theorem optional_some (h : Reads r d v a) (hv : v.scan ≠ .null) :
    Reads (optional r) d v (some a) where
  read hacc := by
    have hr := h.read hacc
    unfold optional
    split
    · rename_i hnull
      exact absurd hnull hv
    · rw [hr]
      rfl
  readable := h.readable

theorem list {f : α → Value} {as : List α} (h : ∀ a ∈ as, Reads r d (f a) a) :
    Reads (list r) (d + 1) (.array (as.map f)) as where
  read {acc} hacc := by
    obtain ⟨inner, henter, hinner⟩ := hacc.enter
    have hitems : (Value.itemScans (as.map f)).mapM (r inner) = .ok as := by
      clear hacc henter
      induction as with
      | nil => rfl
      | cons a as ih =>
        obtain ⟨ha, has⟩ := List.forall_mem_cons.mp h
        rw [List.map_cons, Value.itemScans, List.mapM_cons, ha.read hinner, ih has]
        rfl
    simp only [Json.list, Value.scan]
    rw [henter]
    simp only [hitems, bind, Except.bind]
    rfl
  readable {room} hroom := by
    have hitems : Scan.itemsReadable (room - 1) (Value.itemScans (as.map f)) = true := by
      induction as with
      | nil => rfl
      | cons a as ih =>
        obtain ⟨ha, has⟩ := List.forall_mem_cons.mp h
        rw [List.map_cons, Value.itemScans, Scan.itemsReadable, ih has,
          ha.readable (Nat.le_sub_one_of_lt hroom)]
        rfl
    have hpos : 0 < room := by omega
    rw [Value.scan, Scan.readable, hitems, decide_eq_true hpos]
    rfl

end Reads

/-! ## Records -/

namespace Record

variable {α β : Type}

/-- The names of the fields. -/
def names (R : Record α) : List String := R.fields.map Prod.fst

/-- **Members fit a record.** They are for different fields, each of them is read by its field, and
in any object in which the fields of the record find them the record is read as the value. -/
structure Fits (R : Record α) (d : ℕ) (ms : List (String × Value)) (a : α) : Prop where
  check : ∀ m ∈ ms, ∃ check, R.fields.lookup m.1 = some check ∧
    ∀ {acc : Access}, acc.Holds d → check acc m.2.scan = .ok ()
  readable : ∀ m ∈ ms, ∀ {room : ℕ}, d ≤ room → m.2.scan.readable room = true
  nodup : (ms.map Prod.fst).Nodup
  value : ∀ {all : Members},
    (∀ k ∈ R.names, all.lookup (some k) = (ms.lookup k).map Value.scan) →
      ∀ {acc : Access}, acc.Holds d → R.ofMembers acc all = .ok a

theorem lookup_memberScans (k : String) (ms : List (String × Value)) :
    (Value.memberScans ms).lookup (some k) = (ms.lookup k).map Value.scan := by
  induction ms with
  | nil => rfl
  | cons m ms ih =>
    obtain ⟨n, v⟩ := m
    rw [Value.memberScans, List.lookup_cons, List.lookup_cons, Option.some_beq_some, ih]
    split <;> rfl

theorem lookup_eq_none_iff_notMem {l : List (String × β)} {k : String} :
    l.lookup k = none ↔ k ∉ l.map Prod.fst := by
  rw [List.lookup_eq_none_iff, List.mem_map]
  simp only [bne_iff_ne, ne_eq, not_exists, not_and]
  exact ⟨fun h p hp e => h p hp e.symm, fun h p hp e => h p hp e.symm⟩

theorem mem_names_iff {R : Record α} {k : String} :
    k ∈ R.names ↔ ∃ check, R.fields.lookup k = some check := by
  rw [← Option.ne_none_iff_exists', ne_eq, lookup_eq_none_iff_notMem]
  exact not_not.symm

namespace Fits

variable {F : Record (α → β)} {R : Record α} {r : Reader α} {d : ℕ} {f : α → β} {a : α} {v : Value}
  {ms ns : List (String × Value)}

theorem mem_names (h : R.Fits d ms a) {k : String} (hk : k ∈ ms.map Prod.fst) : k ∈ R.names := by
  obtain ⟨m, hm, rfl⟩ := List.mem_map.mp hk
  obtain ⟨check, hcheck, -⟩ := h.check m hm
  exact mem_names_iff.mpr ⟨check, hcheck⟩

theorem pure (a : α) : (Pure.pure a : Record α).Fits d [] a where
  check := nofun
  readable := nofun
  nodup := List.nodup_nil
  value _ _ _ := rfl

theorem present (name : String) (x : Option α) (h : Reads r d v a) :
    (fieldOr name x r).Fits d [(name, v)] a where
  check m hm := by
    obtain rfl := List.mem_singleton.mp hm
    refine ⟨_, List.lookup_cons_self, fun hacc => ?_⟩
    rw [h.read hacc]
    rfl
  readable m hm := by
    obtain rfl := List.mem_singleton.mp hm
    exact h.readable
  nodup := List.nodup_singleton name
  value {all} hall acc hacc := by
    have hfound := hall name (List.mem_singleton_self name)
    rw [List.lookup_cons_self, Option.map_some] at hfound
    simp only [fieldOr, hfound]
    exact h.read hacc

theorem absent (name : String) (a : α) : (fieldOr name (some a) r).Fits d [] a where
  check := nofun
  readable := nofun
  nodup := List.nodup_nil
  value {all} hall acc _ := by
    have hfound := hall name (List.mem_singleton_self name)
    rw [List.lookup_nil, Option.map_none] at hfound
    simp only [fieldOr, hfound]

theorem names_seq (F : Record (α → β)) (R : Record α) : (F <*> R).names = F.names ++ R.names :=
  List.map_append

/-- **One record after another**, if their fields have different names. -/
theorem seq (hF : F.Fits d ms f) (hR : R.Fits d ns a) (hne : ∀ k ∈ F.names, k ∉ R.names) :
    (F <*> R).Fits d (ms ++ ns) (f a) where
  check m hm := by
    have hfields : (F <*> R).fields.lookup m.1 = (F.fields.lookup m.1).or (R.fields.lookup m.1) :=
      List.lookup_append
    rcases List.mem_append.mp hm with hm | hm
    · obtain ⟨check, hcheck, hok⟩ := hF.check m hm
      exact ⟨check, by rw [hfields, hcheck, Option.some_or], hok⟩
    · obtain ⟨check, hcheck, hok⟩ := hR.check m hm
      have hnone : F.fields.lookup m.1 = none := by
        refine lookup_eq_none_iff_notMem.mpr fun hmem => ?_
        exact hne m.1 hmem (hR.mem_names (List.mem_map_of_mem hm))
      exact ⟨check, by rw [hfields, hnone, Option.none_or, hcheck], hok⟩
  readable m hm := by
    rcases List.mem_append.mp hm with hm | hm
    · exact hF.readable m hm
    · exact hR.readable m hm
  nodup := by
    rw [List.map_append]
    refine hF.nodup.append hR.nodup ?_
    intro k hk hk'
    exact hne k (hF.mem_names hk) (hR.mem_names hk')
  value {all} hall acc hacc := by
    rw [names_seq] at hall
    have hleft : F.ofMembers acc all = .ok f := by
      refine hF.value (fun k hk => ?_) hacc
      have hnone : ns.lookup k = none :=
        lookup_eq_none_iff_notMem.mpr fun hmem => hne k hk (hR.mem_names hmem)
      rw [hall k (List.mem_append_left _ hk), List.lookup_append, hnone, Option.or_none]
    have hright : R.ofMembers acc all = .ok a := by
      refine hR.value (fun k hk => ?_) hacc
      have hnone : ms.lookup k = none :=
        lookup_eq_none_iff_notMem.mpr fun hmem => hne k (hF.mem_names hmem) hk
      rw [hall k (List.mem_append_right _ hk), List.lookup_append, hnone, Option.none_or]
    change (do Pure.pure ((← F.ofMembers acc all) (← R.ofMembers acc all))) = _
    rw [hleft, hright]
    rfl

theorem map (f : α → β) (hR : R.Fits d ms a) : (f <$> R).Fits d ms (f a) :=
  (pure f).seq hR nofun

/-! ### Objects and arrays -/

variable {acc : Access}

theorem checkMembers_eq_ok {seen : List String}
    (hcheck : ∀ m ∈ ms, ∃ check, R.fields.lookup m.1 = some check ∧ check acc m.2.scan = .ok ())
    (hnodup : (ms.map Prod.fst).Nodup) (hseen : ∀ k ∈ seen, k ∉ ms.map Prod.fst) :
    R.checkMembers acc seen (Value.memberScans ms) = .ok () := by
  induction ms generalizing seen with
  | nil => rfl
  | cons m ms ih =>
    obtain ⟨k, v⟩ := m
    obtain ⟨⟨check, hfield, hok⟩, hcheck⟩ := List.forall_mem_cons.mp hcheck
    rw [List.map_cons, List.nodup_cons] at hnodup
    have hnew : k ∉ seen := fun hk => hseen k hk List.mem_cons_self
    have hrest : ∀ n ∈ k :: seen, n ∉ ms.map Prod.fst := by
      intro n hn hmem
      rcases List.mem_cons.mp hn with rfl | hn
      · exact hnodup.1 hmem
      · exact hseen n hn (List.mem_cons_of_mem _ hmem)
    simp only [Value.memberScans, checkMembers, hfield]
    rw [if_neg hnew, hok]
    exact ih hcheck hnodup.2 hrest

theorem readMembers (h : R.Fits d ms a) (hacc : acc.Holds d) :
    R.readMembers acc (Value.memberScans ms) true = .ok a := by
  have hcheck : R.checkMembers acc [] (Value.memberScans ms) = .ok () := by
    refine checkMembers_eq_ok (fun m hm => ?_) h.nodup nofun
    obtain ⟨check, hfield, hok⟩ := h.check m hm
    exact ⟨check, hfield, hok hacc⟩
  rw [Record.readMembers, hcheck]
  exact h.value (fun k _ => lookup_memberScans k ms) hacc

end Fits

end Record

theorem membersReadable_memberScans {ms : List (String × Value)} {room : ℕ}
    (h : ∀ m ∈ ms, m.2.scan.readable room = true) :
    Scan.membersReadable room (Value.memberScans ms) = true := by
  induction ms with
  | nil => rfl
  | cons m ms ih =>
    obtain ⟨hm, hms⟩ := List.forall_mem_cons.mp h
    simp only [Value.memberScans, Scan.membersReadable, hm, ih hms]
    rfl

theorem readable_object {ms : List (String × Value)} {d room : ℕ}
    (h : ∀ m ∈ ms, ∀ {room : ℕ}, d ≤ room → m.2.scan.readable room = true) (hroom : d + 1 ≤ room) :
    (Value.object ms).scan.readable room = true := by
  have hms : Scan.membersReadable (room - 1) (Value.memberScans ms) = true :=
    membersReadable_memberScans fun m hm => h m hm (Nat.le_sub_one_of_lt hroom)
  have hpos : 0 < room := by omega
  rw [Value.scan, Scan.readable, hms, decide_eq_true hpos]
  rfl

/-- **Records** are read from the objects that fit them. -/
theorem Record.Fits.read {α : Type} {R : Record α} {d : ℕ} {ms : List (String × Value)} {a : α}
    (h : R.Fits d ms a) (title : String) : Reads (R.read title) (d + 1) (.object ms) a where
  read {acc} hacc := by
    obtain ⟨inner, henter, hinner⟩ := hacc.enter
    simp only [Record.read, Value.scan, henter]
    exact h.readMembers hinner
  readable hroom := readable_object h.readable hroom

/-! ## Choices -/

section Choices

variable {α : Type} {variants : List (Variant α)} {key tag title : String} {d : ℕ}
  {ms : List (String × Value)} {a : α}

theorem takeTag_memberScans {acc : Access} (v? : Option (Variant α)) (hkey : key ∉ ms.map Prod.fst)
    (htakes : ∀ m ∈ ms, acc.takes m.2.scan = true) :
    takeTag variants key acc v? (Value.memberScans ms) = .ok (v?, Value.memberScans ms) := by
  induction ms with
  | nil => rfl
  | cons m ms ih =>
    obtain ⟨k, v⟩ := m
    obtain ⟨htake, htakes⟩ := List.forall_mem_cons.mp htakes
    rw [List.map_cons, List.mem_cons, not_or] at hkey
    rw [Value.memberScans, takeTag, if_neg (Ne.symm hkey.1), if_pos htake, ih hkey.2 htakes]
    rfl

/-- **Choices** are read from the objects of their alternatives, the tag in front. -/
theorem Reads.tagged {v : Variant α} (hv : variants.find? (·.tag == tag) = some v)
    (hkey : key ∉ ms.map Prod.fst)
    (hreadable : ∀ m ∈ ms, ∀ {room : ℕ}, d ≤ room → m.2.scan.readable room = true)
    (h : v.ofMembers (Value.memberScans ms) = .ok a) :
    Reads (tagged variants key title) (d + 1) (.object ((key, .string tag) :: ms)) a where
  read {acc} hacc := by
    obtain ⟨inner, henter, hinner⟩ := hacc.enter
    have htag : readTag variants inner (.string (some tag)) = .ok v := by
      cases inner <;> simp only [readTag, hv]
    have htakes : ∀ m ∈ ms, inner.takes m.2.scan = true := by
      intro m hm
      cases inner with
      | streamed room => exact hreadable m hm hinner
      | buffered => rfl
    have hmembers : takeTag variants key inner none (Value.memberScans ((key, .string tag) :: ms)) =
        .ok (some v, Value.memberScans ms) := by
      rw [Value.memberScans, takeTag, if_pos rfl, Value.scan, htag]
      exact takeTag_memberScans (some v) hkey htakes
    simp only [Json.tagged, Value.scan, henter, hmembers, bind, Except.bind]
    exact h
  readable hroom := by
    refine readable_object (fun m hm => ?_) hroom
    rcases List.mem_cons.mp hm with rfl | hm
    · exact fun _ => rfl
    · exact hreadable m hm

theorem Reads.unit (hv : variants.find? (·.tag == tag) = some (.unit tag a)) :
    Reads (Json.tagged variants key title) (d + 1) (.object [(key, .string tag)]) a :=
  .tagged hv List.not_mem_nil nofun rfl

theorem Reads.record {R : Record α} {name : String}
    (hv : variants.find? (·.tag == tag) = some (.record tag name R)) (hkey : key ∉ R.names)
    (h : R.Fits d ms a) :
    Reads (Json.tagged variants key title) (d + 1) (.object ((key, .string tag) :: ms)) a :=
  .tagged hv (fun hmem => hkey (h.mem_names hmem)) h.readable (h.readMembers trivial)

end Choices

/-! ## Whole texts -/

/-- **A value is read from the text of its document**, if it is not nested too deeply. -/
theorem Reads.render {α : Type} {r : Reader α} {d : ℕ} {v : Value} {a : α} (h : Reads r d v a)
    (hd : d ≤ maxDepth) (hv : v.Legible) : Json.read r v.render = .ok a := by
  have hread : r (.streamed maxDepth) v.scan = .ok a := h.read hd
  rw [Json.read, scan_render hv]
  simp only [hread]
  rfl

end HpGl.Json
