import HpGl.CommandLine.Render

/-!
# Outputs

A file that is opened for output is emptied or made, and nothing else changes. What is stored in it
then is what its path reads, and every other file is as it was.

* `Files.lookup_store`, `Files.lookup_store_of_ne`: what a file holds once one is stored.
* `Files.Leads`: a path leads to the place of a file; **`read_store`**: it reads what is stored
  there.
* `Files.create_of_leads`, `Files.create_eq_ok`: what opening an output leads to.
* **`Files.Leads.of_names`**: paths from the root and from the working directory.
* `RenderOptions.Opens`, `RenderOptions.Leaves`: the output of a run, and what bytes leave behind.
-/

namespace HpGl

namespace Files

variable {files : Files} {p q : List String} {bytes bytes' : List UInt8}

/-! ## Storing -/

theorem lookup_map_replace (l : List (List String × List UInt8)) (q : List String) :
    (l.map fun (r, old) => if r = p then (r, bytes) else (r, old)).lookup q =
      if q = p then (l.lookup p).map fun _ => bytes else l.lookup q := by
  induction l with
  | nil => simp
  | cons e l ih =>
    obtain ⟨r, old⟩ := e
    by_cases hr : r = p
    · subst hr
      by_cases hq : q = r
      · simp [hq]
      · simp [List.lookup_cons, beq_false_of_ne hq, hq, ih]
    · by_cases hq : q = r
      · subst hq
        simp [hr]
      · simp only [List.map_cons, hr, if_false, List.lookup_cons, beq_false_of_ne hq,
          beq_false_of_ne (Ne.symm hr), ih]

/-- **A stored file holds what was stored.** -/
theorem lookup_store : (files.store p bytes).contents.lookup p = some bytes := by
  unfold store
  rcases h : files.contents.lookup p with _ | old
  · have hfile : files.isFile p = false := by simp [isFile, h]
    simp [hfile, List.lookup_append, h]
  · have hfile : files.isFile p = true := by simp [isFile, h]
    simp [hfile, lookup_map_replace, h]

theorem lookup_store_of_ne (h : q ≠ p) :
    (files.store p bytes).contents.lookup q = files.contents.lookup q := by
  unfold store
  dsimp only
  split
  · rw [lookup_map_replace, if_neg h]
  · simp [List.lookup_append, List.lookup_cons, beq_false_of_ne h]

@[simp] theorem system_store : (files.store p bytes).system = files.system := rfl

/-- The paths of the files. -/
def paths (files : Files) : List (List String) := files.contents.map Prod.fst

theorem mem_paths_of_isFile (h : files.isFile p = true) : p ∈ files.paths := by
  obtain ⟨old, hold⟩ := Option.isSome_iff_exists.mp h
  obtain ⟨l₁, l₂, hl, -⟩ := List.lookup_eq_some_iff.mp hold
  simp [paths, hl]

theorem mem_paths_store : q ∈ (files.store p bytes).paths ↔ q = p ∨ q ∈ files.paths := by
  by_cases h : files.isFile p = true
  · have hpaths : (files.store p bytes).paths = files.paths := by
      simp only [paths, store, h, if_true, List.map_map]
      apply List.map_congr_left
      intro e _
      by_cases he : e.1 = p <;> simp [he]
    rw [hpaths]
    refine ⟨.inr, ?_⟩
    rintro (rfl | hq)
    · exact mem_paths_of_isFile h
    · exact hq
  · simp [paths, store, h, or_comm]

theorem isDirectory_iff : files.isDirectory p = true ↔
    (∃ q ∈ files.system.working :: files.system.directories, p <+: q) ∨
      (∃ q ∈ files.system.devices.map Prod.fst, p <+: q ∧ p ≠ q) ∨
        ∃ q ∈ files.paths, p <+: q ∧ p ≠ q := by
  simp only [isDirectory, paths, Bool.or_eq_true, List.any_eq_true, List.mem_append,
    Bool.and_eq_true, bne_iff_ne, List.isPrefixOf_iff_prefix, or_and_right, exists_or]

theorem isDirectory_store (h : files.isDirectory q = true) :
    (files.store p bytes).isDirectory q = true := by
  rw [isDirectory_iff] at h ⊢
  exact h.imp_right fun h => h.imp_right fun ⟨r, hr, hq⟩ => ⟨r, mem_paths_store.mpr (.inr hr), hq⟩

theorem isDirectory_store_self (h : files.isDirectory p = false) :
    (files.store p bytes).isDirectory p = false := by
  rw [Bool.eq_false_iff] at h ⊢
  intro hstore
  apply h
  rw [isDirectory_iff] at hstore ⊢
  refine hstore.imp_right fun h => h.imp_right fun ⟨r, hr, hp, hne⟩ => ⟨r, ?_, hp, hne⟩
  exact (mem_paths_store.mp hr).resolve_left hne.symm

theorem isDirectory_of_prefix (h : files.isDirectory q = true) (hp : p <+: q) :
    files.isDirectory p = true := by
  have below {r : List String} (hq : q <+: r ∧ q ≠ r) : p <+: r ∧ p ≠ r := by
    refine ⟨hp.trans hq.1, ?_⟩
    rintro rfl
    exact hq.2 (hq.1.eq_of_length (Nat.le_antisymm hq.1.length_le hp.length_le))
  rw [isDirectory_iff] at h ⊢
  rcases h with ⟨r, hr, hq⟩ | ⟨r, hr, hq⟩ | ⟨r, hr, hq⟩
  · exact .inl ⟨r, hr, hp.trans hq⟩
  · exact .inr (.inl ⟨r, hr, below hq⟩)
  · exact .inr (.inr ⟨r, hr, below hq⟩)

/-! ## Finding again -/

theorem bind_eq_ok {α β : Type} {x : Except SystemFault α} {f : α → Except SystemFault β} {b : β} :
    x >>= f = .ok b ↔ ∃ a, x = .ok a ∧ f a = .ok b := by
  cases x <;> simp [bind, Except.bind]

theorem lookUp_eq_ok {dir : List String} {name : String} {e : Entry} :
    files.lookUp dir name = .ok e ↔
      ¬ maxName < name.utf8ByteSize ∧ files.entry (dir ++ [name]) = e := by
  unfold lookUp
  split <;> simp [*]

theorem entry_eq_directory : files.entry p = .directory ↔ files.isDirectory p = true := by
  unfold entry
  rcases files.isDirectory p
  · rcases files.isFile p
    · rcases files.system.devices.lookup p <;> simp
    · simp
  · simp

theorem entry_of_isFile (hd : files.isDirectory p = false) (hf : files.isFile p = true) :
    files.entry p = .file := by
  simp [entry, hd, hf]

theorem lookUp_store {dir : List String} {name : String}
    (h : files.lookUp dir name = .ok .directory) :
    (files.store p bytes).lookUp dir name = .ok .directory := by
  -- Only directories are found again like this: what is absent may be the file that is stored.
  rw [lookUp_eq_ok, entry_eq_directory] at h ⊢
  exact ⟨h.1, isDirectory_store h.2⟩

theorem enter_store {dir d : List String} {name : String} (h : files.enter dir name = .ok d) :
    (files.store p bytes).enter dir name = .ok d := by
  unfold enter at h ⊢
  by_cases hdot : name = "."
  · simpa only [hdot, if_true] using h
  by_cases hup : name = ".."
  · simpa only [hdot, hup, if_true, if_false] using h
  simp only [hdot, hup, if_false] at h ⊢
  split at h
  · cases h
  · rename_i hlook
    rw [lookUp_store hlook]
    exact h
  · cases h
  · cases h

theorem walk_store {names dir d : List String} (h : names.foldlM files.enter dir = .ok d) :
    names.foldlM (files.store p bytes).enter dir = .ok d := by
  induction names generalizing dir with
  | nil => exact h
  | cons name names ih =>
    rw [List.foldlM_cons] at h ⊢
    obtain ⟨d', henter, h⟩ := bind_eq_ok.mp h
    exact bind_eq_ok.mpr ⟨d', enter_store henter, ih h⟩

theorem locate_store {path : String} {r : List String × Option String}
    (h : files.locate path = .ok r) : (files.store p bytes).locate path = .ok r := by
  unfold locate at h ⊢
  by_cases hlong : maxPath < path.utf8ByteSize
  · rw [if_pos hlong] at h
    cases h
  · rw [if_neg hlong] at h ⊢
    obtain ⟨dir, hwalk, h⟩ := bind_eq_ok.mp h
    exact bind_eq_ok.mpr ⟨dir, walk_store hwalk, h⟩

/-- **A path leads to the place of a file**, whether or not there is one. -/
inductive Leads (files : Files) (path : String) : List String → Prop
  | intro {dir : List String} {name : String}
      (located : files.locate path = .ok (dir, some name))
      (short : ¬ maxName < name.utf8ByteSize) (plain : endsInSlash path = false)
      (free : files.isDirectory (dir ++ [name]) = false)
      (allowed : files.allow (dir ++ [name]) = .ok ()) : Leads files path (dir ++ [name])

theorem Leads.store {path : String} (h : files.Leads path p) :
    (files.store p bytes).Leads path p := by
  obtain ⟨located, short, plain, free, allowed⟩ := h
  exact ⟨locate_store located, short, plain, isDirectory_store_self free, allowed⟩

theorem read_of_leads {path : String} (h : files.Leads path p)
    (hp : files.contents.lookup p = some bytes) : files.read path = textOf bytes := by
  obtain @⟨dir, name, located, short, plain, free, allowed⟩ := h
  have hentry : files.entry (dir ++ [name]) = .file :=
    entry_of_isFile free (by rw [isFile, hp]; rfl)
  simp [read, located, lookUp_eq_ok.mpr ⟨short, hentry⟩, plain, allowed, hp, bind, Except.bind]

/-- **What is stored in the place of a file is what its path reads.** -/
theorem read_store {path : String} (h : files.Leads path p) :
    (files.store p bytes).read path = textOf bytes :=
  read_of_leads h.store lookup_store

/-- **A path that leads to the place of a file** can be opened for output, unless a device is
there. -/
theorem create_of_leads {path : String} (h : files.Leads path p)
    (hdevice : files.system.devices.lookup p = none) (hdir : files.allow p.dropLast = .ok ()) :
    files.create path = .ok (files.emptied p) := by
  obtain @⟨dir, name, located, short, plain, free, allowed⟩ := h
  rw [List.dropLast_concat] at hdir
  rcases hfile : files.isFile (dir ++ [name])
  · have hlook : files.lookUp dir name = .ok .absent :=
      lookUp_eq_ok.mpr ⟨short, by simp [entry, free, hfile, hdevice]⟩
    simp [create, located, hlook, plain, allowed, hdir, bind, Except.bind, pure, Except.pure]
  · have hlook : files.lookUp dir name = .ok .file :=
      lookUp_eq_ok.mpr ⟨short, entry_of_isFile free hfile⟩
    simp [create, located, hlook, plain, allowed, bind, Except.bind, pure, Except.pure]

/-- **Opening an output** empties or makes a file, or leaves all as it is. -/
theorem create_eq_ok {path : String} {place : Place} {opened : Files}
    (h : files.create path = .ok (place, opened)) :
    (∃ p, place = .file p ∧ opened = files.store p [] ∧ files.Leads path p) ∨
      ∃ d, place = .device d ∧ opened = files := by
  unfold create at h
  obtain ⟨⟨dir, _ | name⟩, hlocate, h⟩ := bind_eq_ok.mp h
  · cases h
  dsimp only at h
  rcases hplain : endsInSlash path
  rotate_left
  · rw [hplain] at h
    cases h
  rw [hplain] at h
  obtain ⟨e, hlook, h⟩ := bind_eq_ok.mp h
  obtain ⟨short, hentry⟩ := lookUp_eq_ok.mp hlook
  have leads (he : e ≠ .directory) (allowed : files.allow (dir ++ [name]) = .ok ()) :
      files.Leads path (dir ++ [name]) := by
    refine .intro hlocate short hplain ?_ allowed
    rw [Bool.eq_false_iff]
    intro hd
    exact he (hentry.symm.trans (entry_eq_directory.mpr hd))
  cases e with
  | directory => cases h
  | file =>
    obtain ⟨_, allowed, h⟩ := bind_eq_ok.mp h
    cases h
    exact .inl ⟨_, rfl, rfl, leads nofun allowed⟩
  | device d =>
    obtain ⟨_, -, h⟩ := bind_eq_ok.mp h
    cases h
    exact .inr ⟨d, rfl, rfl⟩
  | absent =>
    obtain ⟨_, -, h⟩ := bind_eq_ok.mp h
    obtain ⟨_, allowed, h⟩ := bind_eq_ok.mp h
    cases h
    exact .inl ⟨_, rfl, rfl, leads nofun allowed⟩

/-! ## The names on the way -/

/-- A name that leads to what bears it. -/
def IsName (name : String) : Prop := name ≠ "." ∧ name ≠ ".." ∧ ¬ maxName < name.utf8ByteSize

theorem enter_of_isDirectory {dir : List String} {name : String} (hname : IsName name)
    (h : files.isDirectory (dir ++ [name]) = true) :
    files.enter dir name = .ok (dir ++ [name]) := by
  obtain ⟨hdot, hup, hshort⟩ := hname
  have hlook : files.lookUp dir name = .ok .directory :=
    lookUp_eq_ok.mpr ⟨hshort, entry_eq_directory.mpr h⟩
  simp only [enter, hdot, hup, if_false, hlook]

theorem walk_names {names dir : List String} (hnames : ∀ name ∈ names, IsName name)
    (h : files.isDirectory (dir ++ names) = true) :
    names.foldlM files.enter dir = .ok (dir ++ names) := by
  induction names generalizing dir with
  | nil => rw [List.append_nil, List.foldlM_nil]; rfl
  | cons name names ih =>
    obtain ⟨hname, hnames⟩ := List.forall_mem_cons.mp hnames
    rw [List.append_cons] at h ⊢
    have hdir := isDirectory_of_prefix h (List.prefix_append _ _)
    rw [List.foldlM_cons, enter_of_isDirectory hname hdir]
    exact ih hnames h

theorem walk_up (n : Nat) (dir : List String) :
    (List.replicate n "..").foldlM files.enter dir = .ok (dir.take (dir.length - n)) := by
  induction n generalizing dir with
  | zero => rw [Nat.sub_zero, List.take_length]; rfl
  | succ n ih =>
    have hup : files.enter dir ".." = .ok dir.dropLast := rfl
    rw [List.replicate_succ, List.foldlM_cons, hup]
    refine (ih dir.dropLast).trans (congrArg Except.ok ?_)
    rw [List.dropLast_eq_take, List.take_take, List.length_take]
    congr 1
    omega

/-- **From the root and from the working directory** the names on the way lead to the place of a
file, with as many steps up before them as it takes. -/
theorem Leads.of_names {path : String} {up : Nat} {way : List String} {name : String}
    (hpath : names path = List.replicate up ".." ++ way ++ [name])
    (hway : ∀ n ∈ way, IsName n) (hname : IsName name)
    (hshort : ¬ maxPath < path.utf8ByteSize) (hplain : endsInSlash path = false) :
    let start := if isAbsolute path then [] else files.system.working
    let dir := start.take (start.length - up) ++ way
    files.isDirectory dir = true → files.isDirectory (dir ++ [name]) = false →
      files.allow (dir ++ [name]) = .ok () → files.Leads path (dir ++ [name]) := by
  intro start dir hdir hfree hallow
  refine .intro ?_ hname.2.2 hplain hfree hallow
  have hwalk : (List.replicate up ".." ++ way).foldlM files.enter start = .ok dir := by
    rw [List.foldlM_append, walk_up]
    exact walk_names hway hdir
  have hlast : (some name).filter (fun n => n != "." && n != "..") = some name := by
    simp [hname.1, hname.2.1]
  unfold locate
  rw [if_neg hshort, hpath, List.dropLast_concat, List.getLast?_concat, hlast]
  exact bind_eq_ok.mpr ⟨dir, hwalk, rfl⟩

end Files

/-! ## The output of a run -/

theorem Place.shown_nil (place : Place) : place.shown [] = [] := by
  rcases place with p | d
  · rfl
  · cases d <;> rfl

namespace RenderOptions

variable {o : RenderOptions} {files opened : Files} {place : Place}

/-- **Where the output of a run goes**, and the files once it is open. -/
inductive Opens (o : RenderOptions) (files : Files) : Place → Files → Prop
  | stdout (default : o.output = none) : Opens o files (.device .stdout) files
  | path {path : String} {place : Place} {opened : Files} (given : o.output = some path)
      (created : files.create path = .ok (place, opened)) : Opens o files place opened

theorem openOutput_eq_ok :
    o.openOutput files = .ok (place, opened) ↔ o.Opens files place opened := by
  unfold openOutput
  constructor
  · intro h
    split at h
    · rename_i hnone
      cases h
      exact .stdout hnone
    · rename_i path hpath
      split at h
      · rename_i hcreate
        cases h
        exact .path hpath hcreate
      · cases h
  · rintro (hnone | ⟨hpath, hcreate⟩)
    · rw [hnone]
    · simp only [hpath, hcreate]

/-- **What bytes leave behind**, by the place that they went to: in the files, and on standard
output. -/
inductive Leaves (o : RenderOptions) (files : Files) (bytes : List UInt8) :
    Place → Files → Report → Prop
  /-- The file of the output holds the bytes and nothing of what it held; all others are as they
  were. -/
  | file {path : String} {p : List String} {after : Files} {r : Report}
      (given : o.output = some path) (reads : after.read path = Files.textOf bytes)
      (holds : after.contents.lookup p = some bytes)
      (others : ∀ q, q ≠ p → after.contents.lookup q = files.contents.lookup q)
      (system : after.system = files.system) (printed : r.stdout = []) :
      Leaves o files bytes (.file p) after r
  /-- Standard output holds the bytes. -/
  | stdout {r : Report} (printed : r.stdout = bytes) :
      Leaves o files bytes (.device .stdout) files r
  /-- A device has taken the bytes. -/
  | device {d : Device} {r : Report} (other : d ≠ .stdout) (taken : r.taken = bytes)
      (printed : r.stdout = []) : Leaves o files bytes (.device d) files r

theorem Opens.leaves (h : o.Opens files place opened) {bytes : List UInt8} {r : Report}
    (taken : r.taken = bytes) (printed : r.stdout = place.shown bytes) :
    o.Leaves files bytes place (place.keep opened bytes) r := by
  rcases h with _ | ⟨given, created⟩
  · exact .stdout printed
  · rcases Files.create_eq_ok created with ⟨p, rfl, rfl, hp⟩ | ⟨d, rfl, rfl⟩
    · refine .file given (Files.read_store hp.store) Files.lookup_store ?_ rfl printed
      intro q hq
      change ((files.store p []).store p bytes).contents.lookup q = _
      rw [Files.lookup_store_of_ne hq, Files.lookup_store_of_ne hq]
    · by_cases hd : d = .stdout
      · subst hd
        exact .stdout printed
      · refine .device hd taken (printed.trans ?_)
        cases d <;> first | exact absurd rfl hd | rfl

end RenderOptions

end HpGl
