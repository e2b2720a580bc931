import Harmony.Run
import Harmony.StaticFiles
import Mathlib.Data.List.TakeWhile

/-!
# The files a worker keeps open

A worker opens a file once and keeps it, under its name below the static
directory: `relpath_` is what is left of the name it was opened under behind
the first `static_root_.size() - 1` bytes, less the suffix of an encoding. For a
file of the static directory that is its relative path, with the slash in
front, whatever was asked for and in which order.

The cut is made at a fixed offset, though, and not every file is in the static
directory: `get_static_file` takes absolute paths as well. One of these is kept
under whatever happens to stand behind the offset – which may be the path of a
relative request – and it is looked up under its whole name, which may be the
relative path of another file. It may be too short to be cut. And where a
compressed file is preferred, it is looked for below the static directory.

`ServedRight` is what a call should do: if it yields a file, that is the one
the caller named, or that one with the suffix of an encoding. `Straight` says
which calls are out of reach of these four accidents, and
`servedRight_of_straight` that they are served right whatever calls were made
before them.
-/

open StringView

/-! ## The name of a file and its entry -/

/-- What is in front of the last dot, the dot, and what is behind it. -/
theorem withoutExt_append_extOf {path : Bytes} (h : 46 ∈ path) :
    withoutExt path ++ 46 :: extOf path = path := by
  have hmem : 46 ∈ path.reverse := List.mem_reverse.mpr h
  have hsplit := List.takeWhile_append_dropWhile
    (p := fun c : UInt8 => decide (c ≠ 46)) (l := path.reverse)
  cases hdrop : path.reverse.dropWhile (fun c => decide (c ≠ 46)) with
  | nil =>
    have hall := List.dropWhile_eq_nil_iff.mp hdrop 46 hmem
    exact absurd hall (by decide)
  | cons c rest =>
    have hc : c = 46 := by
      have hhead := List.head_dropWhile_not (p := fun c : UInt8 =>
        decide (c ≠ 46)) (l := path.reverse) (by rw [hdrop]; exact List.cons_ne_nil _ _)
      simp only [hdrop, List.head_cons] at hhead
      simpa using hhead
    rw [hdrop, hc] at hsplit
    unfold withoutExt extOf
    rw [if_pos h]
    have hback := congrArg List.reverse hsplit
    rw [List.reverse_reverse, List.reverse_append, List.reverse_cons,
      List.append_assoc] at hback
    rw [hdrop]
    exact hback

/-- The suffix is that of the rest, if there is a dot in it. -/
theorem extOf_append {front rest : Bytes} (h : 46 ∈ rest) :
    extOf (front ++ rest) = extOf rest := by
  unfold extOf
  rw [List.reverse_append, List.takeWhile_append]
  have hmem : 46 ∈ rest.reverse := List.mem_reverse.mpr h
  have hshort : (rest.reverse.takeWhile (fun c => decide (c ≠ 46))).length
      ≠ rest.reverse.length := by
    intro heq
    have hall := List.takeWhile_eq_self_iff.mp
      ((List.takeWhile_prefix _).eq_of_length heq) 46 hmem
    exact absurd hall (by decide)
  rw [if_neg hshort]

/-- Without a dot in the rest, the rest is part of the suffix. -/
theorem suffix_extOf_append {front rest : Bytes} (h : 46 ∉ rest) :
    rest <:+ extOf (front ++ rest) := by
  unfold extOf
  rw [List.reverse_append, List.takeWhile_append_of_pos, List.reverse_append,
    List.reverse_reverse]
  · exact List.suffix_append _ _
  · intro c hc
    exact decide_eq_true fun heq => h (List.mem_reverse.mp (heq ▸ hc))

/-- The suffixes of the encodings. -/
def encodings : List Bytes := [bytes "br", bytes "gzip", bytes "gz"]

/-- **How an entry is named**: it is kept under what is behind the offset in
the name it was opened under, or under that less the suffix of an encoding. -/
def FileEntry.Keyed (root : StaticRoot) (e : FileEntry) : Prop :=
  ∃ front rest, e.path = front ++ rest
    ∧ front.length + 1 = root.text.length
    ∧ (e.relpath = rest
      ∨ extOf e.path ∈ encodings ∧ e.relpath = withoutExt rest)

/-- The size of the root is not zero. -/
theorem StaticRoot.length_pos (root : StaticRoot) : 1 ≤ root.text.length := by
  obtain ⟨dir, hdir⟩ := root.text_eq
  rw [hdir, List.length_append]
  exact Nat.le_add_left _ _

/-- **The constructor** cuts the name at the offset, if it is long enough. -/
theorem FileEntry.new_spec (root : StaticRoot) (fd : ℕ) {path : Bytes}
    (watch : Bool) (hlong : root.text.length ≤ path.length + 1) :
    ∃ e, FileEntry.new root fd path watch = .ok e ∧ e.path = path
      ∧ e.Keyed root := by
  have hone := root.length_pos
  have hoff : subSizeT root.text.length 1 = root.text.length - 1 :=
    subSizeT_of_le hone root.fits
  have hpos : root.text.length - 1 ≤ path.length := by omega
  have hcut := substr_of_le path.length hpos
  have hrest : (path.drop (root.text.length - 1)).take path.length
      = path.drop (root.text.length - 1) :=
    List.take_of_length_le (by rw [List.length_drop]; omega)
  have hfront : (path.take (root.text.length - 1)).length + 1
      = root.text.length := by
    rw [List.length_take]
    omega
  have hpath : path = path.take (root.text.length - 1)
      ++ path.drop (root.text.length - 1) := (List.take_append_drop _ _).symm
  unfold FileEntry.new
  rw [hoff, hcut, Except.ok_bind, hrest]
  refine ⟨_, rfl, ?_, ?_⟩
  · unfold FileEntry.checkIfCompressed
    split_ifs <;> rfl
  · unfold FileEntry.checkIfCompressed FileEntry.Keyed
    dsimp only
    split_ifs with hbr hgz
    · refine ⟨_, _, hpath, hfront, Or.inr ⟨?_, rfl⟩⟩
      show extOf path ∈ encodings
      rw [hbr]
      decide
    · refine ⟨_, _, hpath, hfront, Or.inr ⟨?_, rfl⟩⟩
      show extOf path ∈ encodings
      rcases hgz with hgz | hgz
      · rw [hgz]
        decide
      · rw [hgz]
        decide
    · exact ⟨_, _, hpath, hfront, Or.inl rfl⟩

/-- **A file of the static directory** is kept under its relative path: the
slash and what is behind it. -/
theorem FileEntry.Keyed.below {root : StaticRoot} {e : FileEntry} {dir : Bytes}
    (h : e.Keyed root) (hdir : root.text = dir ++ [slash])
    (hbelow : root.text <+: e.path) :
    ∃ r suffix, e.relpath = slash :: r
      ∧ e.path = dir ++ e.relpath ++ suffix
      ∧ (suffix = [] ∨ ∃ x ∈ encodings, suffix = 46 :: x) := by
  obtain ⟨front, rest, hpath, hlength, hrel⟩ := h
  obtain ⟨r, hr⟩ := hbelow
  rw [hdir, List.length_append, List.length_singleton] at hlength
  have hcut : front = dir ∧ rest = slash :: r := by
    rw [hpath, hdir, List.append_assoc] at hr
    obtain ⟨hdir', hrest'⟩ := List.append_inj hr.symm (by omega)
    exact ⟨hdir', hrest'⟩
  obtain ⟨rfl, rfl⟩ := hcut
  rcases hrel with hrel | ⟨hext, hrel⟩
  · exact ⟨r, [], hrel, by rw [hrel, List.append_nil, hpath], Or.inl rfl⟩
  · have hnoslash : slash ∉ extOf e.path := by
      intro hmem
      revert hext hmem
      generalize extOf e.path = x
      intro hext hmem
      have hall : ∀ x ∈ encodings, slash ∉ x := by decide
      exact hall x hext hmem
    have hdot : 46 ∈ slash :: r := by
      by_contra hnot
      rw [hpath] at hnoslash
      exact hnoslash ((suffix_extOf_append hnot).mem List.mem_cons_self)
    have hsplit := withoutExt_append_extOf hdot
    have hextr : extOf e.path = extOf (slash :: r) := by
      rw [hpath, extOf_append hdot]
    cases hwithout : withoutExt (slash :: r) with
    | nil =>
      rw [hwithout] at hsplit
      exact absurd (List.cons.inj hsplit).1 (by decide)
    | cons c r' =>
      rw [hwithout] at hsplit
      have hc : c = slash := (List.cons.inj hsplit).1
      refine ⟨r', 46 :: extOf e.path, ?_, ?_, Or.inr ⟨_, hext, rfl⟩⟩
      · rw [hrel, hwithout, hc]
      · rw [hrel, hwithout, hextr, List.append_assoc, hsplit, hpath]

/-- **With the top of the tree as static directory** an entry is kept under the
whole name. -/
theorem FileEntry.Keyed.top {root : StaticRoot} {e : FileEntry}
    (h : e.Keyed root) (htop : root.text = [slash]) :
    ∃ suffix, e.path = e.relpath ++ suffix
      ∧ (suffix = [] ∨ ∃ x ∈ encodings, suffix = 46 :: x) := by
  obtain ⟨front, rest, hpath, hlength, hrel⟩ := h
  rw [htop, List.length_singleton] at hlength
  have hfront : front = [] := List.eq_nil_of_length_eq_zero (by omega)
  rw [hfront, List.nil_append] at hpath
  rcases hrel with hrel | ⟨hext, hrel⟩
  · exact ⟨[], by rw [hrel, List.append_nil, hpath], Or.inl rfl⟩
  · by_cases hdot : 46 ∈ rest
    · refine ⟨46 :: extOf e.path, ?_, Or.inr ⟨_, hext, rfl⟩⟩
      rw [hrel, hpath, withoutExt_append_extOf hdot]
    · refine ⟨[], ?_, Or.inl rfl⟩
      rw [hrel, withoutExt, if_neg hdot, List.append_nil, hpath]

/-! ## The file a caller names -/

/-- **Two names of one file**, by their text. -/
def SameFile (a b : Bytes) : Prop :=
  isAbsolute (cStr a) = isAbsolute (cStr b)
    ∧ resolve (cStr a) = resolve (cStr b)

instance (a b : Bytes) : Decidable (SameFile a b) :=
  inferInstanceAs (Decidable (_ ∧ _))

theorem SameFile.refl (a : Bytes) : SameFile a a := ⟨rfl, rfl⟩

/-- What is in front of the slash of the static directory is not cut. -/
theorem cStr_append {dir : Bytes} (h : 0 ∉ dir) (s : Bytes) :
    cStr (dir ++ s) = dir ++ cStr s :=
  List.takeWhile_append_of_pos fun _ hc =>
    decide_eq_true fun heq => h (heq ▸ hc)

/-- **A slash too many** does not matter. -/
theorem sameFile_slash (root : StaticRoot) {dir : Bytes}
    (hdir : root.text = dir ++ [slash]) (s : Bytes) :
    SameFile (dir ++ slash :: s) (root.text ++ slash :: s) := by
  have hnul : 0 ∉ dir := fun h =>
    root.noNul (hdir ▸ List.mem_append_left _ h)
  have hslash : cStr (slash :: s) = slash :: cStr s :=
    List.takeWhile_cons_of_pos (by decide)
  have hone : cStr (dir ++ slash :: s) = dir ++ slash :: cStr s := by
    rw [cStr_append hnul, hslash]
  have htwo : cStr (root.text ++ slash :: s)
      = dir ++ slash :: slash :: cStr s := by
    rw [cStr_append root.noNul, hslash, hdir, List.append_assoc]
    rfl
  have habs : isAbsolute (dir ++ slash :: cStr s)
      = isAbsolute (dir ++ slash :: slash :: cStr s) := by
    cases dir <;> rfl
  unfold SameFile
  rw [hone, htwo]
  refine ⟨habs, ?_⟩
  unfold resolve
  rw [habs, components_append_slash, components_append_slash,
    show slash :: cStr s = [] ++ slash :: cStr s from rfl,
    components_append_slash, Place.walk_append, Place.walk_append,
    Place.walk_append]
  rfl

/-- **A call of `get_static_file`.** -/
structure FileRequest where
  path : Bytes
  preferCompressed : Bool
  relative : Bool
  watch : Bool
  deriving DecidableEq, Repr

/-- The name of the file that the caller means. -/
def FileRequest.named (root : StaticRoot) (q : FileRequest) : Bytes :=
  if q.relative then root.text ++ q.path else q.path

/-- The suffixes a file may have behind the name that the caller means. -/
def suffixes : List Bytes := [] :: encodings.map (46 :: ·)

theorem mem_suffixes {suffix : Bytes}
    (h : suffix = [] ∨ ∃ x ∈ encodings, suffix = 46 :: x) :
    suffix ∈ suffixes := by
  rcases h with rfl | ⟨x, hx, rfl⟩
  · exact List.mem_cons_self
  · exact List.mem_cons_of_mem _ (List.mem_map_of_mem hx)

/-- A call. -/
def FileRequest.get (root : StaticRoot) (disk : Disk) (files : Files)
    (q : FileRequest) : Except Fault Lookup :=
  getStaticFile root disk files q.path q.preferCompressed q.relative q.watch

/-- **A call is served right**: it returns, and the file it yields, if any, is
the one the caller named, or that one with the suffix of an encoding. -/
def ServedRight (root : StaticRoot) (disk : Disk) (files : Files)
    (q : FileRequest) : Prop :=
  ∃ r, q.get root disk files = .ok r ∧ ∀ e ∈ r.file,
    ∃ suffix ∈ suffixes, SameFile e.path (q.named root ++ suffix)

/-- A file can be opened under a name. -/
def Opens (disk : Disk) (path : Bytes) : Prop :=
  disk.access (cStr path) = true
    ∧ (disk.openRdonly (cStr path)).isSome = true

instance (disk : Disk) (path : Bytes) : Decidable (Opens disk path) :=
  inferInstanceAs (Decidable (_ ∧ _))

/-- **The entry that a call is served from**: of those known under the path, the
first one of the kind preferred, or else the last one. -/
def favourite (preferCompressed : Bool) (es : List FileEntry) : Option FileEntry :=
  (es.find? fun e => e.compressed = preferCompressed).or es.getLast?

/-- This is what the loop picks. -/
theorem pickFile_eq (preferCompressed : Bool) (ret : Option FileEntry)
    (es : List FileEntry) :
    pickFile preferCompressed ret es = (favourite preferCompressed es).or ret := by
  induction es generalizing ret with
  | nil => rfl
  | cons e es ih =>
    have hturn : pickFile preferCompressed ret (e :: es)
        = if e.compressed = preferCompressed then some e
          else pickFile preferCompressed (some e) es := by
      rw [pickFile]
      cases preferCompressed <;> cases e.compressed <;> rfl
    rw [hturn]
    by_cases hkind : e.compressed = preferCompressed
    · rw [if_pos hkind, favourite, List.find?_cons, decide_eq_true hkind]
      rfl
    · rw [if_neg hkind, ih, favourite, favourite, List.find?_cons,
        decide_eq_false hkind]
      cases es.find? fun e => e.compressed = preferCompressed with
      | some e' => rfl
      | none =>
        rw [Option.none_or, Option.none_or, List.getLast?_cons]
        cases es.getLast? <;> rfl

/-- **The calls that are out of reach of an accident.** For a relative path, the
entry that is served was opened in the static directory. For an absolute one, either the static directory is the top of the tree or nothing is
known under the path; and if it has to be opened, it is not too short for the
cut, and what is probed for a compressed file is not another file. -/
def Straight (root : StaticRoot) (disk : Disk) (files : Files)
    (q : FileRequest) : Prop :=
  if q.relative then
    ∀ e ∈ favourite q.preferCompressed (knownAs files q.path), root.text <+: e.path
  else
    (root.text = [slash] ∨ knownAs files q.path = [])
      ∧ (knownAs files q.path = [] →
        (Opens disk q.path → root.text.length ≤ q.path.length + 1)
          ∧ (q.preferCompressed = true →
            Opens disk (root.text ++ q.path ++ bytes ".br") →
            SameFile (root.text ++ q.path ++ bytes ".br")
              (q.path ++ bytes ".br")))

/-! ## What is in the cache -/

/-- **The cache is tidy**: every entry is kept under its relative path. -/
def Tidy (root : StaticRoot) (files : Files) : Prop :=
  ∀ p ∈ files, p.1 = p.2.relpath ∧ p.2.Keyed root

/-- **A file that is long enough to be cut** is opened under its name. -/
theorem addStaticFile_spec (root : StaticRoot) (disk : Disk) {files : Files}
    {path : Bytes} (watch : Bool) (htidy : Tidy root files)
    (hlong : Opens disk path → root.text.length ≤ path.length + 1) :
    ∃ r, addStaticFile root disk files path watch = .ok r
      ∧ Tidy root r.files
      ∧ ∀ e ∈ r.file, e.path = path ∧ Opens disk path := by
  unfold addStaticFile
  dsimp only
  split_ifs with haccess
  · exact ⟨_, rfl, htidy, fun _ he => absurd he (Option.not_mem_none _)⟩
  · cases hopen : disk.openRdonly (cStr path) with
    | none => exact ⟨_, rfl, htidy, fun _ he => absurd he (Option.not_mem_none _)⟩
    | some fd =>
      have hopens : Opens disk path :=
        ⟨eq_true_of_ne_false haccess, by rw [hopen]; rfl⟩
      obtain ⟨e, hnew, hpath, hkeyed⟩ :=
        FileEntry.new_spec root fd watch (hlong hopens)
      dsimp only
      rw [hnew, Except.ok_bind]
      refine ⟨_, rfl, ?_, ?_⟩
      · intro p hp
        rcases List.mem_append.mp hp with hp | hp
        · exact htidy p hp
        · rw [List.mem_singleton.mp hp]
          exact ⟨rfl, hkeyed⟩
      · intro e' he'
        rw [← Option.some.inj he']
        exact ⟨hpath, hopens⟩

/-- **A name that is too short** cannot be cut. -/
theorem addStaticFile_short {root : StaticRoot} {disk : Disk} (files : Files)
    {path : Bytes} (watch : Bool) (hopens : Opens disk path)
    (hshort : path.length + 1 < root.text.length) :
    addStaticFile root disk files path watch = .error .outOfRange := by
  obtain ⟨fd, hfd⟩ := Option.isSome_iff_exists.mp hopens.2
  unfold addStaticFile
  dsimp only
  rw [if_neg (by rw [hopens.1]; exact Bool.noConfusion), hfd]
  dsimp only
  rw [FileEntry.new, subSizeT_of_le root.length_pos root.fits,
    substr_of_lt _ (by omega)]
  rfl

/-- What is added to a tidy cache leaves it tidy. -/
theorem Tidy.add {root : StaticRoot} {disk : Disk} {files : Files}
    {path : Bytes} {watch : Bool} {r : Lookup} (h : Tidy root files)
    (hadd : addStaticFile root disk files path watch = .ok r) :
    Tidy root r.files := by
  by_cases hlong : Opens disk path → root.text.length ≤ path.length + 1
  · obtain ⟨r', hr', htidy, -⟩ := addStaticFile_spec root disk watch h hlong
    rw [hr'] at hadd
    exact Except.ok.inj hadd ▸ htidy
  · obtain ⟨hopens, hshort⟩ := Classical.not_imp.mp hlong
    rw [addStaticFile_short files watch hopens (Nat.not_le.mp hshort)] at hadd
    cases hadd

/-- So does a call. -/
theorem Tidy.get {root : StaticRoot} {disk : Disk} {files : Files}
    {q : FileRequest} {r : Lookup} (h : Tidy root files)
    (hget : q.get root disk files = .ok r) : Tidy root r.files := by
  unfold FileRequest.get getStaticFile at hget
  cases hpick : pickFile q.preferCompressed none (knownAs files q.path) with
  | some e =>
    rw [hpick] at hget
    exact Except.ok.inj hget ▸ h
  | none =>
    rw [hpick] at hget
    obtain ⟨plain, hplain, hget⟩ := Except.exists_of_bind_eq_ok hget
    split_ifs at hget
    · obtain ⟨br, hbr, hget⟩ := Except.exists_of_bind_eq_ok hget
      have htidy := (h.add hplain).add hbr
      exact Except.ok.inj hget ▸ htidy
    · exact Except.ok.inj hget ▸ h.add hplain

/-- A file that is picked is one of those looked at. -/
theorem mem_of_pickFile {preferCompressed : Bool} {e : FileEntry}
    {ret : Option FileEntry} {es : List FileEntry}
    (h : pickFile preferCompressed ret es = some e) : ret = some e ∨ e ∈ es := by
  induction es generalizing ret with
  | nil => exact Or.inl h
  | cons e' es ih =>
    rw [pickFile] at h
    split_ifs at h
    · exact Or.inr (Option.some.inj h ▸ List.mem_cons_self)
    · exact Or.inr (Option.some.inj h ▸ List.mem_cons_self)
    · rcases ih h with heq | hmem
      · exact Or.inr (Option.some.inj heq ▸ List.mem_cons_self)
      · exact Or.inr (List.mem_cons_of_mem _ hmem)

/-- **An entry that is picked** is kept under the path asked for. -/
theorem Tidy.picked {root : StaticRoot} {files : Files} {path : Bytes}
    {preferCompressed : Bool} {e : FileEntry} (h : Tidy root files)
    (hpick : pickFile preferCompressed none (knownAs files path) = some e) :
    e ∈ knownAs files path ∧ e.relpath = path ∧ e.Keyed root := by
  have hmem := (mem_of_pickFile hpick).resolve_left (fun h => by cases h)
  refine ⟨hmem, ?_⟩
  obtain ⟨p, hp, rfl⟩ := List.mem_map.mp hmem
  obtain ⟨hp, hkey⟩ := List.mem_filter.mp hp
  obtain ⟨hrel, hkeyed⟩ := h p hp
  exact ⟨hrel.symm.trans (of_decide_eq_true hkey), hkeyed⟩

/-! ## What a call yields -/

/-- The suffix that is probed for is one of an encoding. -/
theorem br_mem_suffixes : bytes ".br" ∈ suffixes := by decide

/-- **A file that is known already.** -/
theorem servedRight_of_picked {root : StaticRoot} {disk : Disk} {files : Files}
    {q : FileRequest} {e : FileEntry} (htidy : Tidy root files)
    (hstraight : Straight root disk files q)
    (hpick : pickFile q.preferCompressed none (knownAs files q.path) = some e) :
    ServedRight root disk files q := by
  obtain ⟨hmem, hrel, hkeyed⟩ := htidy.picked hpick
  have hget : q.get root disk files = .ok ⟨some e, files, []⟩ := by
    unfold FileRequest.get getStaticFile
    rw [hpick]
  refine ⟨_, hget, fun e' he' => ?_⟩
  rw [← Option.some.inj he']
  unfold FileRequest.named
  unfold Straight at hstraight
  cases hrelative : q.relative with
  | true =>
    rw [hrelative, if_pos rfl] at hstraight
    obtain ⟨dir, hdir⟩ := root.text_eq
    rw [pickFile_eq, Option.or_none] at hpick
    obtain ⟨r, suffix, hslash, hpath, hsuffix⟩ :=
      hkeyed.below hdir (hstraight e hpick)
    refine ⟨suffix, mem_suffixes hsuffix, ?_⟩
    have hsame := sameFile_slash root hdir (r ++ suffix)
    rw [hpath, if_pos rfl, ← hrel, hslash, List.append_assoc, List.append_assoc]
    exact hsame
  | false =>
    rw [hrelative, if_neg Bool.false_ne_true] at hstraight
    have hknown : knownAs files q.path ≠ [] := by
      intro hnil
      rw [hnil] at hpick
      cases hpick
    obtain ⟨suffix, hpath, hsuffix⟩ :=
      hkeyed.top (hstraight.1.resolve_right hknown)
    refine ⟨suffix, mem_suffixes hsuffix, ?_⟩
    rw [hpath, if_neg Bool.false_ne_true, hrel]
    exact .refl _

/-- What a call does for a file that has to be opened. -/
theorem get_of_unknown (root : StaticRoot) (disk : Disk) {files : Files}
    {q : FileRequest} (hunknown : knownAs files q.path = []) :
    q.get root disk files = (do
      let plain ← addStaticFile root disk files (q.named root) q.watch
      if q.preferCompressed then
        let br ← addStaticFile root disk plain.files
          (root.text ++ q.path ++ bytes ".br") q.watch
        .ok ⟨if br.file.isSome then br.file else plain.file, br.files,
          plain.calls ++ br.calls⟩
      else .ok plain) := by
  have hpick : pickFile q.preferCompressed none (knownAs files q.path) = none :=
    (pickFile_eq_none_iff _ _ _).mpr ⟨rfl, hunknown⟩
  unfold FileRequest.get getStaticFile
  rw [hpick]
  rfl

/-- **A file that has to be opened.** -/
theorem servedRight_of_unknown {root : StaticRoot} {disk : Disk}
    {files : Files} {q : FileRequest} (htidy : Tidy root files)
    (hstraight : Straight root disk files q)
    (hunknown : knownAs files q.path = []) :
    ServedRight root disk files q := by
  have hlong : Opens disk (q.named root) →
      root.text.length ≤ (q.named root).length + 1 := by
    unfold FileRequest.named
    unfold Straight at hstraight
    split_ifs at hstraight ⊢ with hrelative
    · intro _
      rw [List.length_append]
      omega
    · exact (hstraight.2 hunknown).1
  have hbr : q.preferCompressed = true →
      Opens disk (root.text ++ q.path ++ bytes ".br") →
      SameFile (root.text ++ q.path ++ bytes ".br")
        (q.named root ++ bytes ".br") := by
    unfold FileRequest.named
    unfold Straight at hstraight
    split_ifs at hstraight ⊢ with hrelative
    · exact fun _ _ => .refl _
    · exact (hstraight.2 hunknown).2
  obtain ⟨plain, hplain, htidy₁, hfile⟩ :=
    addStaticFile_spec root disk q.watch htidy hlong
  have hnamed : ∀ e ∈ plain.file, ∃ suffix ∈ suffixes,
      SameFile e.path (q.named root ++ suffix) := by
    intro e he
    refine ⟨[], List.mem_cons_self, ?_⟩
    rw [(hfile e he).1, List.append_nil]
    exact .refl _
  have hget := get_of_unknown root disk hunknown
  rw [hplain, Except.ok_bind] at hget
  cases hprefer : q.preferCompressed with
  | false =>
    rw [hprefer, if_neg Bool.false_ne_true] at hget
    exact ⟨plain, hget, hnamed⟩
  | true =>
    have hlong' : Opens disk (root.text ++ q.path ++ bytes ".br") →
        root.text.length ≤ (root.text ++ q.path ++ bytes ".br").length + 1 := by
      intro _
      rw [List.length_append, List.length_append]
      omega
    obtain ⟨br, hadd, -, hfile'⟩ :=
      addStaticFile_spec root disk q.watch htidy₁ hlong'
    rw [hprefer, if_pos rfl, hadd, Except.ok_bind] at hget
    refine ⟨_, hget, fun e he => ?_⟩
    dsimp only at he
    split_ifs at he
    · obtain ⟨hpath, hopens⟩ := hfile' e he
      refine ⟨bytes ".br", br_mem_suffixes, ?_⟩
      rw [hpath]
      exact hbr hprefer hopens
    · exact hnamed e he

/-! ## Runs -/

/-- **What happens to the files of a worker**, as long as none is removed. -/
inductive FileStep where
  /-- A file of the static directory is added when the server starts. -/
  | load (name : Bytes) (watch : Bool)
  /-- `get_static_file` is called. -/
  | get (q : FileRequest)
  deriving DecidableEq, Repr

/-- One step. -/
def FileStep.run (root : StaticRoot) (disk : Disk) (files : Files) :
    FileStep → Except Fault Files
  | .load name watch =>
    (addStaticFile root disk files (root.text ++ name) watch).map Lookup.files
  | .get q => (q.get root disk files).map Lookup.files

/-- **Every step leaves the cache tidy.** -/
theorem Tidy.step {root : StaticRoot} {disk : Disk} {files files' : Files}
    {e : FileStep} (h : Tidy root files)
    (hstep : e.run root disk files = .ok files') : Tidy root files' := by
  cases e with
  | load name watch =>
    obtain ⟨r, hadd, rfl⟩ := Except.exists_of_map_eq_ok hstep
    exact h.add hadd
  | get q =>
    obtain ⟨r, hget, rfl⟩ := Except.exists_of_map_eq_ok hstep
    exact h.get hget

/-- **Whatever was called before, a straight call is served right.** -/
theorem servedRight_of_straight {root : StaticRoot} {disk : Disk}
    {steps : List FileStep} {files : Files}
    (hrun : Run.exec (fun files e => FileStep.run root disk files e) [] steps
      = .ok files) (q : FileRequest) (hstraight : Straight root disk files q) :
    ServedRight root disk files q := by
  have htidy : Tidy root files :=
    Run.invariant_of_step (fun _ _ _ => Tidy.step)
      (fun _ hp => absurd hp List.not_mem_nil) hrun
  cases hknown : knownAs files q.path with
  | nil => exact servedRight_of_unknown htidy hstraight hknown
  | cons e es =>
    have hpick : pickFile q.preferCompressed none (knownAs files q.path)
        ≠ none := by
      intro hnone
      rw [hknown] at hnone
      exact List.cons_ne_nil _ _ ((pickFile_eq_none_iff _ _ _).mp hnone).2
    obtain ⟨e', he'⟩ := Option.ne_none_iff_exists'.mp hpick
    exact servedRight_of_picked htidy hstraight he'

/-- A disk on which every file can be read. -/
def fullDisk : Disk := ⟨fun _ => true, fun _ => some 3⟩

/-- The entry of a file that is opened plainly. -/
def plainEntry (path relpath : Bytes) (watch : Bool) : FileEntry :=
  ⟨3, path, relpath, bytes "html", false, [], watch⟩

/-- The index, found under its relative path. -/
theorem index_servedRight :
    Run.exec (fun files e => FileStep.run wwwRoot fullDisk files e) []
        [.load (bytes "index.html") true]
      = .ok [(bytes "/index.html", plainEntry (bytes "/srv/www/index.html")
        (bytes "/index.html") true)]
    ∧ ServedRight wwwRoot fullDisk
      [(bytes "/index.html", plainEntry (bytes "/srv/www/index.html")
        (bytes "/index.html") true)]
      ⟨bytes "/index.html", true, true, true⟩ := by
  have hrun : Run.exec (fun files e => FileStep.run wwwRoot fullDisk files e) []
      [.load (bytes "index.html") true]
      = .ok [(bytes "/index.html", plainEntry (bytes "/srv/www/index.html")
        (bytes "/index.html") true)] := by decide +kernel
  refine ⟨hrun, servedRight_of_straight hrun _ ?_⟩
  show ∀ e ∈ favourite _ _, _
  decide +kernel

/-- **A file from elsewhere**, opened under an absolute path of the right
length, is what the relative request gets. -/
theorem stray_not_servedRight :
    ¬ ∀ (root : StaticRoot) (disk : Disk) (steps : List FileStep)
      (files : Files),
      Run.exec (fun files e => FileStep.run root disk files e) [] steps
        = .ok files →
      ∀ q, ServedRight root disk files q := by
  intro h
  have hrun : Run.exec (fun files e => FileStep.run wwwRoot fullDisk files e) []
      [.get ⟨bytes "/opt/app/index.html", false, false, false⟩]
      = .ok [(bytes "/index.html", plainEntry (bytes "/opt/app/index.html")
        (bytes "/index.html") false)] := by decide +kernel
  obtain ⟨r, hr, hfile⟩ := h wwwRoot fullDisk _ _ hrun
    ⟨bytes "/index.html", false, true, true⟩
  have hstray : (FileRequest.mk (bytes "/index.html") false true true).get
      wwwRoot fullDisk [(bytes "/index.html",
        plainEntry (bytes "/opt/app/index.html") (bytes "/index.html") false)]
      = .ok ⟨some (plainEntry (bytes "/opt/app/index.html")
        (bytes "/index.html") false), _, []⟩ := rfl
  rw [hstray] at hr
  obtain ⟨suffix, hsuffix, hsame⟩ := hfile (plainEntry
    (bytes "/opt/app/index.html") (bytes "/index.html") false)
    (Except.ok.inj hr ▸ rfl)
  revert suffix
  decide +kernel
