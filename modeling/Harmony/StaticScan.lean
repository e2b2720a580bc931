import Harmony.FileReuse
import Mathlib.Data.List.Nodup

/-!
# Loading the static directory

Before it starts the server goes through the static directory once, and each
worker opens every file it finds, so that requests find the files open. What
begins with a dot is left out. The types of the entries are compared bit by bit
(`de->d_type & DT_DIR`), so that a socket is taken for a directory, which then
cannot be opened, and a character device for a file.

A file lies at the end of a way through directories (`Listing.Leads`), and
`mem_iterateDirectory` says which files the walk finds: those on whose way
nothing is hidden, by the types of what is on it. Every one of them is found
once, and behind the walk each worker serves it, under its path below the static
directory, without opening anything (`loaded_and_served`).
-/

open StringView

/-! ## What the walk finds -/

/-- `DT_DIR`, `DT_REG` and `DT_LNK`. -/
def dtDir : ℕ := 4
def dtReg : ℕ := 8
def dtLnk : ℕ := 10

/-- **A directory**, as `readdir` lists it. -/
inductive Listing where
  | nil
  /-- An entry that `opendir` cannot open. -/
  | entry (name : Bytes) (dType : ℕ) (rest : Listing)
  /-- An entry that it can. -/
  | directory (name : Bytes) (dType : ℕ) (entries rest : Listing)
  deriving DecidableEq, Repr

/-- An entry to pass over. -/
def isHidden (name : Bytes) : Bool := name.head? == some 46

/-- An entry taken for a directory. -/
def asDirectory (dType : ℕ) : Bool := dType &&& dtDir != 0

/-- An entry taken for a file. -/
def asFile (dType : ℕ) : Bool := dType &&& dtReg ||| dType &&& dtLnk != 0

/-- **`Server::iterate_directory`**: the names under which workers are told to
open files, in their order. -/
def iterateDirectory (path : Bytes) : Listing → List Bytes
  | .nil => []
  | .entry name dType rest =>
    (if isHidden name then []
      -- no such directory
      else if asDirectory dType then []
      else if asFile dType then [path ++ name]
      else []) ++ iterateDirectory path rest
  | .directory name dType entries rest =>
    (if isHidden name then []
      else if asDirectory dType then
        iterateDirectory (path ++ name ++ [slash]) entries
      else if asFile dType then [path ++ name]
      else []) ++ iterateDirectory path rest

/-- **The way to an entry**: the names and types of the directories it lies in,
and its own. -/
inductive Listing.Leads : Listing → List (Bytes × ℕ) → Bytes × ℕ → Prop where
  | entry (name : Bytes) (dType : ℕ) (rest : Listing) :
    Leads (.entry name dType rest) [] (name, dType)
  | directory (name : Bytes) (dType : ℕ) (entries rest : Listing) :
    Leads (.directory name dType entries rest) [] (name, dType)
  | inside {name : Bytes} {dType : ℕ} {entries : Listing} (rest : Listing)
      {way : List (Bytes × ℕ)} {e : Bytes × ℕ} (h : Leads entries way e) :
    Leads (.directory name dType entries rest) ((name, dType) :: way) e
  | behindEntry (name : Bytes) (dType : ℕ) {rest : Listing}
      {way : List (Bytes × ℕ)} {e : Bytes × ℕ} (h : Leads rest way e) :
    Leads (.entry name dType rest) way e
  | behindDirectory (name : Bytes) (dType : ℕ) (entries : Listing)
      {rest : Listing} {way : List (Bytes × ℕ)} {e : Bytes × ℕ}
      (h : Leads rest way e) :
    Leads (.directory name dType entries rest) way e

/-- The name of an entry, from the directory on from where the way begins. -/
def wayText (way : List (Bytes × ℕ)) (name : Bytes) : Bytes :=
  way.flatMap (fun d => d.1 ++ [slash]) ++ name

/-- **An entry that the walk finds**: it is taken for a file and lies in
directories only, none of them hidden. -/
structure Found (way : List (Bytes × ℕ)) (e : Bytes × ℕ) : Prop where
  directories : ∀ d ∈ way, isHidden d.1 = false ∧ asDirectory d.2 = true
  visible : isHidden e.1 = false
  notDirectory : asDirectory e.2 = false
  file : asFile e.2 = true

theorem wayText_cons (d : Bytes × ℕ) (way : List (Bytes × ℕ)) (name : Bytes) :
    wayText (d :: way) name = d.1 ++ slash :: wayText way name := by
  unfold wayText
  rw [List.flatMap_cons, List.append_assoc, List.append_assoc]
  rfl

/-- **The files that the walk finds.** -/
theorem mem_iterateDirectory {path p : Bytes} {l : Listing} :
    p ∈ iterateDirectory path l
      ↔ ∃ way e, l.Leads way e ∧ Found way e ∧ p = path ++ wayText way e.1 := by
  induction l generalizing path with
  | nil =>
    refine iff_of_false List.not_mem_nil ?_
    rintro ⟨way, e, hleads, -⟩
    cases hleads
  | entry name dType rest ih =>
    rw [iterateDirectory, List.mem_append, ih]
    constructor
    · rintro (hhere | ⟨way, e, hleads, hfound, hp⟩)
      · split_ifs at hhere with hhidden hdir hfile
        · cases hhere
        · cases hhere
        · exact ⟨[], (name, dType), .entry _ _ _,
            ⟨nofun, eq_false_of_ne_true hhidden, eq_false_of_ne_true hdir, hfile⟩,
            List.mem_singleton.mp hhere⟩
        · cases hhere
      · exact ⟨way, e, .behindEntry _ _ hleads, hfound, hp⟩
    · rintro ⟨way, e, hleads, hfound, hp⟩
      cases hleads with
      | entry =>
        refine .inl ?_
        rw [if_neg (ne_true_of_eq_false hfound.visible),
          if_neg (ne_true_of_eq_false hfound.notDirectory), if_pos hfound.file]
        exact List.mem_singleton.mpr hp
      | behindEntry _ _ hleads => exact .inr ⟨way, e, hleads, hfound, hp⟩
  | directory name dType entries rest ihentries ihrest =>
    rw [iterateDirectory, List.mem_append, ihrest]
    constructor
    · rintro (hhere | ⟨way, e, hleads, hfound, hp⟩)
      · split_ifs at hhere with hhidden hdir hfile
        · cases hhere
        · obtain ⟨way, e, hleads, hfound, hp⟩ := ihentries.mp hhere
          refine ⟨(name, dType) :: way, e, .inside _ hleads, ⟨?_, hfound.visible,
            hfound.notDirectory, hfound.file⟩, ?_⟩
          · exact List.forall_mem_cons.mpr
              ⟨⟨eq_false_of_ne_true hhidden, hdir⟩, hfound.directories⟩
          · rw [hp, wayText_cons, List.append_assoc, List.append_assoc]
            rfl
        · exact ⟨[], (name, dType), .directory _ _ _ _,
            ⟨nofun, eq_false_of_ne_true hhidden, eq_false_of_ne_true hdir, hfile⟩,
            List.mem_singleton.mp hhere⟩
        · cases hhere
      · exact ⟨way, e, .behindDirectory _ _ _ hleads, hfound, hp⟩
    · rintro ⟨way, e, hleads, hfound, hp⟩
      cases hleads with
      | directory =>
        refine .inl ?_
        rw [if_neg (ne_true_of_eq_false hfound.visible),
          if_neg (ne_true_of_eq_false hfound.notDirectory), if_pos hfound.file]
        exact List.mem_singleton.mpr hp
      | @inside _ _ _ _ way _ hleads =>
        obtain ⟨⟨hhidden, hdir⟩, hway⟩ := List.forall_mem_cons.mp hfound.directories
        refine .inl ?_
        rw [if_neg (ne_true_of_eq_false hhidden), if_pos hdir]
        refine ihentries.mpr ⟨way, e, hleads,
          ⟨hway, hfound.visible, hfound.notDirectory, hfound.file⟩, ?_⟩
        rw [hp, wayText_cons, List.append_assoc, List.append_assoc]
        rfl
      | behindDirectory _ _ _ hleads => exact .inr ⟨way, e, hleads, hfound, hp⟩

/-! ## Each file once -/

/-- The names a directory lists. -/
def Listing.names : Listing → List Bytes
  | .nil => []
  | .entry name _ rest => name :: rest.names
  | .directory name _ _ rest => name :: rest.names

/-- **What a file system holds to**: no name has a slash in it, and in one
directory there are no two entries of a name. -/
def Listing.Named : Listing → Prop
  | .nil => True
  | .entry name _ rest => slash ∉ name ∧ name ∉ rest.names ∧ rest.Named
  | .directory name _ entries rest =>
    slash ∉ name ∧ name ∉ rest.names ∧ entries.Named ∧ rest.Named

instance decidableNamed : (l : Listing) → Decidable l.Named
  | .nil => inferInstanceAs (Decidable True)
  | .entry _ _ rest =>
    have := decidableNamed rest
    inferInstanceAs (Decidable (_ ∧ _ ∧ _))
  | .directory _ _ entries rest =>
    have := decidableNamed entries
    have := decidableNamed rest
    inferInstanceAs (Decidable (_ ∧ _ ∧ _ ∧ _))

/-- What is in front of the first slash. -/
theorem takeWhile_name {name : Bytes} (h : slash ∉ name) (rest : Bytes) :
    (name ++ slash :: rest).takeWhile (· ≠ slash) = name
      ∧ name.takeWhile (· ≠ slash) = name := by
  have hall : ∀ c ∈ name, decide (c ≠ slash) = true := fun c hc =>
    decide_eq_true fun heq => h (heq ▸ hc)
  refine ⟨?_, List.takeWhile_eq_self_iff.mpr hall⟩
  rw [List.takeWhile_append_of_pos hall, List.takeWhile_cons_of_neg (by decide),
    List.append_nil]

/-- **What is found below a directory** has the name of one of its entries in
front. -/
theorem name_of_mem {path p : Bytes} {l : Listing} (hnamed : l.Named)
    (h : p ∈ iterateDirectory path l) :
    ∃ r, p = path ++ r ∧ r.takeWhile (· ≠ slash) ∈ l.names := by
  induction l with
  | nil => cases h
  | entry name dType rest ih =>
    obtain ⟨hslash, -, hrest⟩ := hnamed
    rcases List.mem_append.mp h with hhere | hbehind
    · split_ifs at hhere
      · cases hhere
      · cases hhere
      · refine ⟨name, List.mem_singleton.mp hhere, ?_⟩
        rw [(takeWhile_name hslash []).2]
        exact List.mem_cons_self
      · cases hhere
    · obtain ⟨r, hp, hmem⟩ := ih hrest hbehind
      exact ⟨r, hp, List.mem_cons_of_mem _ hmem⟩
  | directory name dType entries rest _ ih =>
    obtain ⟨hslash, -, -, hrest⟩ := hnamed
    rcases List.mem_append.mp h with hhere | hbehind
    · split_ifs at hhere
      · cases hhere
      · obtain ⟨way, e, -, -, hp⟩ := mem_iterateDirectory.mp hhere
        refine ⟨name ++ slash :: wayText way e.1, ?_, ?_⟩
        · rw [hp, List.append_assoc, List.append_assoc]
          rfl
        · rw [(takeWhile_name hslash _).1]
          exact List.mem_cons_self
      · refine ⟨name, List.mem_singleton.mp hhere, ?_⟩
        rw [(takeWhile_name hslash []).2]
        exact List.mem_cons_self
      · cases hhere
    · obtain ⟨r, hp, hmem⟩ := ih hrest hbehind
      exact ⟨r, hp, List.mem_cons_of_mem _ hmem⟩

/-- What is found in an entry is not found behind it. -/
theorem disjoint_behind {path name : Bytes} {rest : Listing}
    {found : List Bytes} (hrest : rest.Named) (hnew : name ∉ rest.names)
    (hfound : ∀ p ∈ found, ∃ r, p = path ++ r
      ∧ r.takeWhile (· ≠ slash) = name) :
    List.Disjoint found (iterateDirectory path rest) := by
  intro p hp hbehind
  obtain ⟨r, hr, hname⟩ := hfound p hp
  obtain ⟨r', hr', hmem⟩ := name_of_mem hrest hbehind
  have heq : r = r' := List.append_cancel_left (hr.symm.trans hr')
  rw [← heq, hname] at hmem
  exact hnew hmem

/-- A file has its own name in front. -/
theorem name_of_mem_singleton {path name : Bytes} (hslash : slash ∉ name) :
    ∀ p ∈ [path ++ name], ∃ r, p = path ++ r
      ∧ r.takeWhile (· ≠ slash) = name :=
  fun _ hp => ⟨name, List.mem_singleton.mp hp, (takeWhile_name hslash []).2⟩

/-- **The walk finds no file twice.** -/
theorem nodup_iterateDirectory (path : Bytes) {l : Listing} (hnamed : l.Named) :
    (iterateDirectory path l).Nodup := by
  induction l generalizing path with
  | nil => exact List.nodup_nil
  | entry name dType rest ih =>
    obtain ⟨hslash, hnew, hrest⟩ := hnamed
    refine List.Nodup.append ?_ (ih path hrest)
      (disjoint_behind hrest hnew fun p hp => ?_)
    · split_ifs
      · exact List.nodup_nil
      · exact List.nodup_nil
      · exact List.nodup_singleton _
      · exact List.nodup_nil
    · split_ifs at hp
      · cases hp
      · cases hp
      · exact name_of_mem_singleton hslash p hp
      · cases hp
  | directory name dType entries rest ihentries ihrest =>
    obtain ⟨hslash, hnew, hentries, hrest⟩ := hnamed
    refine List.Nodup.append ?_ (ihrest path hrest)
      (disjoint_behind hrest hnew fun p hp => ?_)
    · split_ifs
      · exact List.nodup_nil
      · exact ihentries _ hentries
      · exact List.nodup_singleton _
      · exact List.nodup_nil
    · split_ifs at hp
      · cases hp
      · obtain ⟨way, e, -, -, hp⟩ := mem_iterateDirectory.mp hp
        refine ⟨name ++ slash :: wayText way e.1, ?_,
          (takeWhile_name hslash _).1⟩
        rw [hp, List.append_assoc, List.append_assoc]
        rfl
      · exact name_of_mem_singleton hslash p hp
      · cases hp

/-! ## The workers load what is found -/

/-- A worker, as far as its files go: the disk as it sees it, with descriptors
of its own, and the files it has open. -/
structure StaticWorker where
  disk : Disk
  files : Files

/-- `add_static_file` on a worker. -/
def StaticWorker.load (root : StaticRoot) (path : Bytes) (w : StaticWorker) :
    Except Fault StaticWorker :=
  (addStaticFile root w.disk w.files path true).map fun r =>
    { w with files := r.files }

/-- **`Server::serve_static_files`**, once the path has been trimmed: every file
that is found is added to all workers. -/
def loadStaticFiles (root : StaticRoot) (tree : Listing)
    (workers : List StaticWorker) : Except Fault (List StaticWorker) :=
  (iterateDirectory root.text tree).foldlM
    (fun workers path => workers.mapM (StaticWorker.load root path)) workers

/-- The entry that is made for a file. -/
def EntryOf (root : StaticRoot) (path : Bytes) (f : Bytes × FileEntry) : Prop :=
  f.1 = f.2.relpath ∧ ∃ fd watch, FileEntry.new root fd path watch = .ok f.2

/-- **Loading a file** of the static directory: it is kept if it can be
opened. -/
theorem load_spec {root : StaticRoot} {path : Bytes}
    (hbelow : root.text <+: path) (w : StaticWorker) :
    ∃ more, w.load root path = .ok ⟨w.disk, w.files ++ more⟩
      ∧ List.Forall₂ (EntryOf root)
        ([path].filter fun p => decide (Opens w.disk p)) more := by
  have hle : root.text.length ≤ path.length + 1 :=
    hbelow.length_le.trans (Nat.le_succ _)
  obtain ⟨r, hr⟩ : ∃ r, addStaticFile root w.disk w.files path true = .ok r := by
    unfold addStaticFile
    dsimp only
    split_ifs
    · exact ⟨_, rfl⟩
    · split
      · exact ⟨_, rfl⟩
      · rename_i fd _
        obtain ⟨e, hnew, -⟩ := FileEntry.new_spec root fd true hle
        rw [hnew]
        exact ⟨_, rfl⟩
  have hload : w.load root path = .ok ⟨w.disk, r.files⟩ := by
    unfold StaticWorker.load
    rw [hr]
    rfl
  rw [hload]
  rcases addStaticFile_cases hr
    with ⟨hnot, -, hfiles⟩ | ⟨hopens, fd, e, hnew, -, hfiles⟩
  · refine ⟨[], by rw [hfiles, List.append_nil], ?_⟩
    rw [List.filter_cons_of_neg (by simpa using hnot)]
    exact .nil
  · refine ⟨[(e.relpath, e)], by rw [hfiles], ?_⟩
    rw [List.filter_cons_of_pos (by simpa using hopens)]
    exact .cons ⟨rfl, fd, true, hnew⟩ .nil

/-! ### All workers -/

section Lists

variable {ε α β γ : Type}

/-- Where no element fails, the list does not. -/
theorem Except.exists_of_mapM {f : α → Except ε β} {R : α → β → Prop} {l : List α}
    (h : ∀ a ∈ l, ∃ b, f a = .ok b ∧ R a b) :
    ∃ l', l.mapM f = .ok l' ∧ List.Forall₂ R l l' := by
  induction l with
  | nil => exact ⟨[], rfl, .nil⟩
  | cons a l ih =>
    obtain ⟨⟨b, hb, hR⟩, hl⟩ := List.forall_mem_cons.mp h
    obtain ⟨l', hl', hall⟩ := ih hl
    refine ⟨b :: l', ?_, .cons hR hall⟩
    rw [List.mapM_cons, hb, Except.ok_bind, hl']
    rfl

/-- One relation of lists behind another. -/
theorem forall₂_trans {R : α → β → Prop} {S : β → γ → Prop} {T : α → γ → Prop}
    (h : ∀ {a b c}, R a b → S b c → T a c) {l : List α} {l' : List β}
    {l'' : List γ} (hR : List.Forall₂ R l l') (hS : List.Forall₂ S l' l'') :
    List.Forall₂ T l l'' := by
  induction hR generalizing l'' with
  | nil =>
    cases hS
    exact .nil
  | cons hab _ ih =>
    cases hS with
    | cons hbc hrest => exact .cons (h hab hbc) (ih hrest)

/-- What is on the right is related to something on the left. -/
theorem exists_of_mem_right {R : α → β → Prop} {l : List α} {l' : List β}
    (h : List.Forall₂ R l l') {b : β} (hb : b ∈ l') : ∃ a ∈ l, R a b := by
  induction h with
  | nil => cases hb
  | @cons a b' l l' hab _ ih =>
    rcases List.mem_cons.mp hb with rfl | hmem
    · exact ⟨a, List.mem_cons_self, hab⟩
    · obtain ⟨a', ha', hR⟩ := ih hmem
      exact ⟨a', List.mem_cons_of_mem _ ha', hR⟩

end Lists

/-- **What loading does to a worker**: those of the files that can be opened are
added, in their order. -/
def Loads (root : StaticRoot) (paths : List Bytes) (w w' : StaticWorker) : Prop :=
  w'.disk = w.disk ∧ ∃ more, w'.files = w.files ++ more
    ∧ List.Forall₂ (EntryOf root) (paths.filter fun p => decide (Opens w.disk p))
      more

theorem Loads.refl (root : StaticRoot) (w : StaticWorker) : Loads root [] w w :=
  ⟨rfl, [], (List.append_nil _).symm, .nil⟩

theorem Loads.trans {root : StaticRoot} {paths paths' : List Bytes}
    {w w' w'' : StaticWorker} (h : Loads root paths w w')
    (h' : Loads root paths' w' w'') : Loads root (paths ++ paths') w w'' := by
  obtain ⟨hdisk, more, hfiles, hmore⟩ := h
  obtain ⟨hdisk', more', hfiles', hmore'⟩ := h'
  refine ⟨hdisk'.trans hdisk, more ++ more', ?_, ?_⟩
  · rw [hfiles', hfiles, List.append_assoc]
  · rw [List.filter_append]
    rw [hdisk] at hmore'
    exact List.rel_append hmore hmore'

/-- **Loading files on all workers** never fails. -/
theorem loadAll_spec (root : StaticRoot) {paths : List Bytes}
    (hbelow : ∀ p ∈ paths, root.text <+: p) (workers : List StaticWorker) :
    ∃ workers', paths.foldlM
        (fun workers path => workers.mapM (StaticWorker.load root path)) workers
        = .ok workers'
      ∧ List.Forall₂ (Loads root paths) workers workers' := by
  induction paths generalizing workers with
  | nil => exact ⟨workers, rfl, List.forall₂_same.mpr fun w _ => .refl root w⟩
  | cons p paths ih =>
    obtain ⟨hp, hpaths⟩ := List.forall_mem_cons.mp hbelow
    obtain ⟨first, hfirst, hall⟩ := Except.exists_of_mapM (l := workers)
      (f := StaticWorker.load root p) (R := Loads root [p]) fun w _ => by
        obtain ⟨more, hload, hmore⟩ := load_spec hp w
        exact ⟨_, hload, rfl, more, rfl, hmore⟩
    obtain ⟨workers', hrest, hall'⟩ := ih hpaths first
    refine ⟨workers', ?_, forall₂_trans (T := Loads root ([p] ++ paths))
      (fun h h' => h.trans h') hall hall'⟩
    rw [List.foldlM_cons, hfirst, Except.ok_bind, hrest]

/-! ## What is served -/

/-- An entry is compressed if its name ends with the suffix of an encoding. -/
theorem compressed_new {root : StaticRoot} {fd : ℕ} {path : Bytes} {watch : Bool}
    {e : FileEntry} (h : FileEntry.new root fd path watch = .ok e) :
    e.compressed = true ↔ extOf path ∈ encodings := by
  unfold FileEntry.new at h
  obtain ⟨rest, -, h⟩ := Except.exists_of_bind_eq_ok h
  rw [← Except.ok.inj h]
  simp only [encodings, List.mem_cons, List.not_mem_nil, or_false]
  unfold FileEntry.checkIfCompressed
  dsimp only
  split_ifs with hbr hgz
  · exact iff_of_true rfl (.inl hbr)
  · exact iff_of_true rfl (.inr hgz)
  · exact iff_of_false id fun h => h.elim hbr hgz

/-- Where no compressed file is preferred, none is picked unless there are no
others. -/
theorem pickFile_false {ret : Option FileEntry} {l : List FileEntry}
    {e : FileEntry} (h : pickFile false ret l = some e)
    (hplain : ∃ e₀ ∈ l, e₀.compressed = false) : e.compressed = false := by
  induction l generalizing ret with
  | nil =>
    obtain ⟨e₀, he₀, -⟩ := hplain
    cases he₀
  | cons e₁ l ih =>
    obtain ⟨e₀, he₀, hnot⟩ := hplain
    rw [pickFile, Bool.false_and, if_neg Bool.false_ne_true, Bool.not_false,
      Bool.true_and] at h
    cases hc : e₁.compressed with
    | false =>
      rw [hc, Bool.not_false, if_pos rfl] at h
      cases h
      exact hc
    | true =>
      rw [hc, Bool.not_true, if_neg Bool.false_ne_true] at h
      rcases List.mem_cons.mp he₀ with rfl | hmem
      · rw [hc] at hnot
        cases hnot
      · exact ih h ⟨e₀, hmem, hnot⟩

/-- **The entry of a file** of the static directory: the name it was opened under
is that directory, the path it is kept under and the suffix of an encoding; an
entry that is not compressed has no suffix. -/
theorem EntryOf.below {root : StaticRoot} {dir path : Bytes}
    (hdir : root.text = dir ++ [slash]) (hbelow : root.text <+: path)
    {f : Bytes × FileEntry} (h : EntryOf root path f) :
    f.2.path = path ∧ (∃ suffix ∈ suffixes, path = dir ++ f.1 ++ suffix)
      ∧ (f.2.compressed = false ↔ extOf path ∉ encodings)
      ∧ (f.2.compressed = false → path = dir ++ f.1) := by
  obtain ⟨hkey, fd, watch, hnew⟩ := h
  obtain ⟨e, hnew', hpath, hkeyed⟩ := FileEntry.new_spec root fd watch
    (hbelow.length_le.trans (Nat.le_succ _))
  obtain rfl : f.2 = e := Except.ok.inj (hnew.symm.trans hnew')
  obtain ⟨r, suffix, -, hwhole, hsuffix⟩ :=
    hkeyed.below hdir (hpath ▸ hbelow)
  have hiff : f.2.compressed = false ↔ extOf path ∉ encodings := by
    rw [← compressed_new hnew, Bool.not_eq_true]
  refine ⟨hpath, ⟨suffix, mem_suffixes hsuffix, ?_⟩, hiff, fun hplain => ?_⟩
  · rw [← hpath, hkey, hwhole]
  · obtain ⟨front, rest, hsplit, hlength, hrel⟩ := FileEntry.relpath_new hnew
    rw [if_neg (hiff.mp hplain)] at hrel
    obtain ⟨r', hr'⟩ := hbelow
    rw [hdir, List.length_append, List.length_singleton] at hlength
    rw [hsplit, hdir, List.append_assoc] at hr'
    obtain ⟨hfront, -⟩ := List.append_inj hr'.symm (by omega)
    rw [hsplit, hkey, hrel, hfront]

/-- **All files lie below the static directory**: each entry was made for one of
them. -/
def AllBelow (root : StaticRoot) (files : Files) : Prop :=
  ∀ f ∈ files, ∃ path, root.text <+: path ∧ EntryOf root path f

theorem allBelow_of_entries {root : StaticRoot} {paths : List Bytes} {files : Files}
    (hfiles : List.Forall₂ (EntryOf root) paths files)
    (hbelow : ∀ p ∈ paths, root.text <+: p) : AllBelow root files := by
  intro f hf
  obtain ⟨p, hp, hentry⟩ := exists_of_mem_right hfiles hf
  exact ⟨p, hbelow p hp, hentry⟩

/-- **What is known under the path of a file** was made for that file, or for the
file with the suffix of an encoding, and one of these entries is served. -/
theorem entry_of_known {root : StaticRoot} (disk : Disk) {files : Files}
    (h : AllBelow root files) {q : FileRequest} {r : Bytes}
    (hpath : q.path = slash :: r) (hknown : knownAs files q.path ≠ []) :
    ∃ e ∈ knownAs files q.path, ∃ fd watch suffix,
      q.get root disk files = .ok ⟨some e, files, []⟩
      ∧ FileEntry.new root fd (root.text ++ r ++ suffix) watch = .ok e
      ∧ e.path = root.text ++ r ++ suffix ∧ suffix ∈ suffixes := by
  obtain ⟨dir, hdir⟩ := root.text_eq
  obtain ⟨e, he, hget⟩ := FileRequest.get_of_known root disk hknown
  obtain ⟨f, hf, rfl⟩ := List.mem_map.mp he
  obtain ⟨hfile, hkey⟩ := List.mem_filter.mp hf
  obtain ⟨p, hbelow, hentry⟩ := h f hfile
  obtain ⟨hname, ⟨suffix, hsuffix, hwhole⟩, -⟩ := hentry.below hdir hbelow
  obtain ⟨-, fd, watch, hnew⟩ := hentry
  have hp : p = root.text ++ r ++ suffix := by
    have hcons : slash :: r = [slash] ++ r := rfl
    rw [hwhole, of_decide_eq_true hkey, hpath, hdir, hcons, ← List.append_assoc dir]
  rw [hp] at hnew hname
  exact ⟨f.2, he, fd, watch, suffix, hget, hnew, hname, hsuffix⟩

/-- **A file that was loaded is served** under its path below the static
directory, and nothing is opened. -/
theorem served_of_loaded {root : StaticRoot} (disk : Disk) {paths : List Bytes}
    {files : Files} (hfiles : List.Forall₂ (EntryOf root) paths files)
    (hbelow : ∀ p ∈ paths, root.text <+: p) {r : Bytes}
    (hmem : root.text ++ r ∈ paths) (hplain : extOf (root.text ++ r) ∉ encodings)
    (prefer watch : Bool) :
    ∃ e ∈ knownAs files (slash :: r), ∃ suffix,
      (FileRequest.mk (slash :: r) prefer true watch).get root disk
        files = .ok ⟨some e, files, []⟩
      ∧ e.path = root.text ++ r ++ suffix ∧ suffix ∈ suffixes
      ∧ (prefer = false → suffix = []) := by
  obtain ⟨dir, hdir⟩ := root.text_eq
  have hname : root.text ++ r = dir ++ slash :: r := by
    rw [hdir, List.append_assoc]
    rfl
  -- the entries known under the path were opened with a suffix behind it
  have hknown : ∀ e ∈ knownAs files (slash :: r), ∃ suffix ∈ suffixes,
      e.path = root.text ++ r ++ suffix
        ∧ (e.compressed = false → e.path = root.text ++ r) := by
    intro e he
    obtain ⟨f, hf, rfl⟩ := List.mem_map.mp he
    obtain ⟨hfile, hkey⟩ := List.mem_filter.mp hf
    obtain ⟨p, hp, hentry⟩ := exists_of_mem_right hfiles hfile
    obtain ⟨hpath, ⟨suffix, hsuffix, hwhole⟩, -, hnone⟩ :=
      hentry.below hdir (hbelow p hp)
    rw [of_decide_eq_true hkey] at hwhole hnone
    refine ⟨suffix, hsuffix, ?_, fun hc => ?_⟩
    · rw [hpath, hwhole, hname]
    · rw [hpath, hnone hc, hname]
  -- the file itself is among them
  obtain ⟨e₀, he₀, hplain₀⟩ : ∃ e₀ ∈ knownAs files (slash :: r),
      e₀.compressed = false := by
    obtain ⟨f, hf, hentry⟩ : ∃ f ∈ files, EntryOf root (root.text ++ r) f :=
      exists_of_mem_right hfiles.flip hmem
    obtain ⟨-, -, hiff, hnone⟩ := hentry.below hdir (hbelow _ hmem)
    have hc := hiff.mpr hplain
    have hkey : f.1 = slash :: r :=
      List.append_cancel_left ((hnone hc).symm.trans hname)
    exact ⟨f.2, List.mem_map_of_mem
      (List.mem_filter.mpr ⟨hf, decide_eq_true hkey⟩), hc⟩
  have hpick : pickFile prefer none (knownAs files (slash :: r)) ≠ none :=
    fun h => List.ne_nil_of_mem he₀ ((pickFile_eq_none_iff _ _ _).mp h).2
  obtain ⟨e, he⟩ := Option.ne_none_iff_exists'.mp hpick
  have hin := (mem_of_pickFile he).resolve_left nofun
  obtain ⟨suffix, hsuffix, hpath, hnone⟩ := hknown e hin
  refine ⟨e, hin, suffix, ?_, hpath, hsuffix, fun hprefer => ?_⟩
  · unfold FileRequest.get getStaticFile
    rw [he]
  · rw [hprefer] at he
    have hwhole := hnone (pickFile_false he ⟨e₀, he₀, hplain₀⟩)
    rw [hpath] at hwhole
    exact List.append_right_eq_self.mp hwhole

/-- The entries bear the names the files were opened under. -/
theorem paths_of_entries {root : StaticRoot} {paths : List Bytes} {files : Files}
    (h : List.Forall₂ (EntryOf root) paths files)
    (hbelow : ∀ p ∈ paths, root.text <+: p) :
    (files.map fun f => f.2.path) = paths := by
  obtain ⟨dir, hdir⟩ := root.text_eq
  induction h with
  | nil => rfl
  | cons hone _ ih =>
    obtain ⟨hp, hpaths⟩ := List.forall_mem_cons.mp hbelow
    rw [List.map_cons, (hone.below hdir hp).1, ih hpaths]

/-- What is found lies below the static directory. -/
theorem prefix_of_mem {path p : Bytes} {l : Listing}
    (h : p ∈ iterateDirectory path l) : path <+: p := by
  obtain ⟨way, e, -, -, hp⟩ := mem_iterateDirectory.mp h
  exact hp ▸ List.prefix_append _ _

/-- **The static directory is loaded, and what is loaded is served.** Whatever the
directory and however many workers there are, loading does not fail, and each
worker has opened exactly the files found that it can open, each once. Directly
afterwards it finds every file it has opened, other than a compressed one, under
its path below the static directory without opening anything, whether or not it
prefers a compressed file; if it does it may find the one of that name. -/
theorem loaded_and_served (root : StaticRoot) {tree : Listing}
    (hnamed : tree.Named) (disks : List Disk) :
    ∃ workers, loadStaticFiles root tree (disks.map fun d => ⟨d, []⟩) = .ok workers
      ∧ workers.map StaticWorker.disk = disks
      ∧ ∀ w ∈ workers,
        (w.files.map fun f => f.2.path)
            = (iterateDirectory root.text tree).filter
              (fun p => decide (Opens w.disk p))
        ∧ (w.files.map fun f => f.2.path).Nodup
        ∧ ∀ way e, tree.Leads way e → Found way e →
          Opens w.disk (root.text ++ wayText way e.1) →
          extOf (root.text ++ wayText way e.1) ∉ encodings →
          ∀ prefer watch, ∃ file suffix,
            (FileRequest.mk (slash :: wayText way e.1) prefer true watch).get root
                w.disk w.files = .ok ⟨some file, w.files, []⟩
              ∧ file.path = root.text ++ wayText way e.1 ++ suffix
              ∧ suffix ∈ suffixes ∧ (prefer = false → suffix = []) := by
  obtain ⟨workers, hload, hall⟩ := loadAll_spec root
    (fun p hp => prefix_of_mem hp) (disks.map fun d => ⟨d, []⟩)
  refine ⟨workers, hload, ?_, fun w hw => ?_⟩
  · have hdisks : ∀ {l l' : List StaticWorker},
        List.Forall₂ (Loads root (iterateDirectory root.text tree)) l l' →
        l'.map StaticWorker.disk = l.map StaticWorker.disk := fun h => by
      induction h with
      | nil => rfl
      | cons hone _ ih => rw [List.map_cons, List.map_cons, hone.1, ih]
    rw [hdisks hall, List.map_map]
    exact List.map_id disks
  · obtain ⟨w₀, hw₀, hdisk, more, hfiles, hentries⟩ :=
      exists_of_mem_right hall hw
    obtain ⟨disk, -, rfl⟩ := List.mem_map.mp hw₀
    rw [List.nil_append] at hfiles
    rw [← hdisk, ← hfiles] at hentries
    have hbelow : ∀ p ∈ (iterateDirectory root.text tree).filter
        (fun p => decide (Opens w.disk p)), root.text <+: p := fun p hp =>
      prefix_of_mem (List.mem_filter.mp hp).1
    have hpaths := paths_of_entries hentries hbelow
    refine ⟨hpaths, ?_, fun way e hleads hfound hopens hplain prefer watch => ?_⟩
    · rw [hpaths]
      exact (nodup_iterateDirectory root.text hnamed).filter _
    · obtain ⟨file, -, hserved⟩ := served_of_loaded w.disk hentries hbelow
        (List.mem_filter.mpr ⟨mem_iterateDirectory.mpr
          ⟨way, e, hleads, hfound, rfl⟩, decide_eq_true hopens⟩)
        hplain prefer watch
      exact ⟨file, hserved⟩

/-! ### A directory -/

/-- A page, with a compressed copy, a page in a directory, one that is hidden,
and a socket. -/
def wwwTree : Listing :=
  .entry (bytes "index.html") dtReg <| .entry (bytes "index.html.br") dtReg <|
    .directory (bytes "docs") dtDir (.entry (bytes "a.html") dtLnk .nil) <|
    .entry (bytes ".env") dtReg <| .entry (bytes "sock") 12 .nil

/-- Both workers have opened the three files that can be seen, and serve the page
in the directory. -/
theorem wwwTree_served :
    ∃ workers, loadStaticFiles wwwRoot wwwTree
        ([fullDisk, fullDisk].map fun d => ⟨d, []⟩) = .ok workers
      ∧ ∀ w ∈ workers,
        (w.files.map fun f => f.2.path)
          = [bytes "/srv/www/index.html", bytes "/srv/www/index.html.br",
            bytes "/srv/www/docs/a.html"]
        ∧ ∃ file, (FileRequest.mk (bytes "/docs/a.html") false true true).get
            wwwRoot w.disk w.files = .ok ⟨some file, w.files, []⟩
          ∧ file.path = bytes "/srv/www/docs/a.html" := by
  obtain ⟨workers, hload, hdisks, hall⟩ := loaded_and_served wwwRoot
    (show wwwTree.Named by decide +kernel) [fullDisk, fullDisk]
  refine ⟨workers, hload, fun w hw => ?_⟩
  have hdisk : w.disk = fullDisk := by
    have hmem : w.disk ∈ [fullDisk, fullDisk] :=
      hdisks ▸ List.mem_map_of_mem hw
    rcases List.mem_cons.mp hmem with h | h
    · exact h
    · exact List.mem_singleton.mp h
  obtain ⟨hpaths, -, hserved⟩ := hall w hw
  rw [hdisk] at hpaths hserved ⊢
  obtain ⟨file, suffix, hget, hpath, -, hnone⟩ := hserved [(bytes "docs", dtDir)]
    (bytes "a.html", dtLnk)
    (.behindEntry _ _ (.behindEntry _ _ (.inside _ (.entry _ _ _))))
    ⟨by decide +kernel, by decide +kernel, by decide +kernel, by decide +kernel⟩
    (by decide +kernel) (by decide +kernel) false true
  rw [hnone rfl] at hpath
  exact ⟨hpaths.trans (by decide +kernel), file, hget,
    hpath.trans (by decide +kernel)⟩
