import Harmony.StaticCache

/-!
# Finding an open file again

A file that is not known yet is opened by `get_static_file` and kept, so that the
next call for it finds it. The call looks it up under the path it was given. What
it was kept under is cut from the name it was opened with, though: that is the
static directory, which ends with a slash, and the path, which begins with one,
and the cut is made in front of the first of the two. So the key begins with a
slash more than the path. The next call does not find the file, opens it again,
and keeps another entry of it.

`FileRequest.reused_iff` says which calls find the file again: those that found
it the first time, and those for an absolute path with the top of the tree as
static directory, if the name has no suffix of an encoding.
-/

open StringView

/-! ## The key of a file that is opened -/

/-- **The key**: the name behind the offset, less the suffix of an encoding. -/
theorem FileEntry.relpath_new {root : StaticRoot} {fd : ℕ} {path : Bytes}
    {watch : Bool} {e : FileEntry} (h : FileEntry.new root fd path watch = .ok e) :
    ∃ front rest, path = front ++ rest ∧ front.length + 1 = root.text.length
      ∧ e.relpath = if extOf path ∈ encodings then withoutExt rest else rest := by
  have hone := root.length_pos
  have hoff : subSizeT root.text.length 1 = root.text.length - 1 :=
    subSizeT_of_le hone root.fits
  unfold FileEntry.new at h
  rw [hoff] at h
  obtain ⟨rest, hcut, h⟩ := Except.exists_of_bind_eq_ok h
  have hle : root.text.length - 1 ≤ path.length := by
    by_contra hlt
    rw [substr_of_lt _ (not_le.mp hlt)] at hcut
    cases hcut
  rw [substr_of_le _ hle, List.take_of_length_le (by rw [List.length_drop]; omega)]
    at hcut
  cases hcut
  refine ⟨path.take (root.text.length - 1), _,
    (List.take_append_drop _ _).symm, ?_, ?_⟩
  · rw [List.length_take]
    omega
  · have hmem : extOf path ∈ encodings
        ↔ extOf path = bytes "br" ∨ extOf path = bytes "gzip"
          ∨ extOf path = bytes "gz" := by
      simp only [encodings, List.mem_cons, List.not_mem_nil, or_false]
    rw [← Except.ok.inj h]
    unfold FileEntry.checkIfCompressed
    dsimp only
    by_cases hbr : extOf path = bytes "br"
    · rw [if_pos hbr, if_pos (hmem.mpr (Or.inl hbr))]
    · rw [if_neg hbr]
      by_cases hgz : extOf path = bytes "gzip" ∨ extOf path = bytes "gz"
      · rw [if_pos hgz, if_pos (hmem.mpr (Or.inr hgz))]
      · rw [if_neg hgz, if_neg fun h => (hmem.mp h).elim hbr hgz]

/-- The suffix and the dot go. -/
theorem length_withoutExt {path : Bytes} (h : 46 ∈ path) :
    (withoutExt path).length + 1 + (extOf path).length = path.length := by
  have hlength := congrArg List.length (withoutExt_append_extOf h)
  rw [List.length_append, List.length_cons] at hlength
  omega

/-- Without a dot nothing goes. -/
theorem withoutExt_of_notMem {path : Bytes} (h : 46 ∉ path) :
    withoutExt path = path :=
  if_neg h

/-- **How long a key is**: it has the bytes behind the offset, or fewer by a dot
and the suffix of an encoding. -/
theorem FileEntry.length_relpath_new {root : StaticRoot} {fd : ℕ} {path : Bytes}
    {watch : Bool} {e : FileEntry} (h : FileEntry.new root fd path watch = .ok e) :
    root.text.length + e.relpath.length = path.length + 1
      ∨ ∃ x ∈ encodings,
        root.text.length + e.relpath.length + x.length = path.length := by
  obtain ⟨front, rest, rfl, hfront, hrel⟩ := relpath_new h
  rw [List.length_append, ← hfront, hrel]
  split_ifs with hext
  · by_cases hdot : 46 ∈ rest
    · have hlength := length_withoutExt hdot
      refine Or.inr ⟨_, hext, ?_⟩
      rw [extOf_append hdot]
      omega
    · rw [withoutExt_of_notMem hdot]
      exact Or.inl (by omega)
  · exact Or.inl (by omega)

/-- How long the suffixes are. -/
theorem length_of_mem_encodings {x : Bytes} (h : x ∈ encodings) :
    x.length = 2 ∨ x.length = 4 := by
  have hall : ∀ x ∈ encodings, x.length = 2 ∨ x.length = 4 := by decide
  exact hall x h

/-- **A file of the static directory** is not kept under the path it was asked for
by, with a suffix to probe for behind it or without. -/
theorem FileEntry.relpath_ne {root : StaticRoot} {fd : ℕ} {path suffix : Bytes}
    {watch : Bool} {e : FileEntry}
    (h : FileEntry.new root fd (root.text ++ path ++ suffix) watch = .ok e)
    (hsuffix : suffix.length = 0 ∨ suffix.length = 3) : e.relpath ≠ path := by
  rintro rfl
  rcases length_relpath_new h with hlength | ⟨x, hx, hlength⟩
  · rw [List.length_append, List.length_append] at hlength
    omega
  · rw [List.length_append, List.length_append] at hlength
    have htwo := length_of_mem_encodings hx
    omega

/-- **A file under an absolute path** is kept under it with the top of the tree as
static directory, if no suffix is cut. -/
theorem FileEntry.relpath_eq_iff {root : StaticRoot} {fd : ℕ} {path : Bytes}
    {watch : Bool} {e : FileEntry} (h : FileEntry.new root fd path watch = .ok e) :
    e.relpath = path
      ↔ root.text = [slash] ∧ (extOf path ∈ encodings → 46 ∉ path) := by
  obtain ⟨front, rest, hpath, hfront, hrel⟩ := relpath_new h
  have htop : front = [] ↔ root.text = [slash] := by
    obtain ⟨dir, hdir⟩ := root.text_eq
    rw [hdir, List.length_append, List.length_singleton] at hfront
    rw [hdir, List.append_left_eq_self, ← List.length_eq_zero_iff,
      ← List.length_eq_zero_iff]
    omega
  constructor
  · intro heq
    have hnil : front = [] := by
      have hlength := length_relpath_new h
      rw [heq] at hlength
      rw [← List.length_eq_zero_iff]
      rcases hlength with hlength | ⟨x, hx, hlength⟩
      · omega
      · have htwo := length_of_mem_encodings hx
        omega
    refine ⟨htop.mp hnil, fun hext hdot => ?_⟩
    rw [hnil, List.nil_append] at hpath
    have hlength := length_withoutExt hdot
    rw [if_pos hext, ← hpath, heq] at hrel
    rw [← hrel] at hlength
    omega
  · rintro ⟨hroot, hcut⟩
    rw [htop.mpr hroot, List.nil_append] at hpath
    rw [hrel, ← hpath]
    split_ifs with hext
    · exact withoutExt_of_notMem (hcut hext)
    · rfl

/-! ## The files that are kept -/

theorem knownAs_append (files more : Files) (path : Bytes) :
    knownAs (files ++ more) path = knownAs files path ++ knownAs more path := by
  unfold knownAs
  rw [List.filter_append, List.map_append]

theorem knownAs_eq_nil_iff {files : Files} {path : Bytes} :
    knownAs files path = [] ↔ ∀ p ∈ files, p.1 ≠ path := by
  unfold knownAs
  rw [List.map_eq_nil_iff, List.filter_eq_nil_iff]
  simp only [decide_eq_true_eq]

/-- **What adding a file does**: it is kept if it can be opened. -/
theorem addStaticFile_cases {root : StaticRoot} {disk : Disk} {files : Files}
    {path : Bytes} {watch : Bool} {r : Lookup}
    (h : addStaticFile root disk files path watch = .ok r) :
    (¬ Opens disk path ∧ r.file = none ∧ r.files = files)
      ∨ Opens disk path ∧ ∃ fd e, FileEntry.new root fd path watch = .ok e
        ∧ r.file = some e ∧ r.files = files ++ [(e.relpath, e)] := by
  unfold addStaticFile at h
  dsimp only at h
  split_ifs at h with haccess
  · cases h
    refine Or.inl ⟨fun hopens => ?_, rfl, rfl⟩
    exact Bool.false_ne_true (haccess.symm.trans hopens.1)
  · cases hopen : disk.openRdonly (cStr path) with
    | none =>
      rw [hopen] at h
      cases h
      refine Or.inl ⟨fun hopens => ?_, rfl, rfl⟩
      have hsome := hopens.2
      rw [hopen] at hsome
      exact Bool.false_ne_true hsome
    | some fd =>
      rw [hopen] at h
      obtain ⟨e, hnew, h⟩ := Except.exists_of_bind_eq_ok h
      cases h
      exact Or.inr ⟨⟨eq_true_of_ne_false haccess, by rw [hopen]; rfl⟩, fd, e, hnew,
        rfl, rfl⟩

/-- Nothing that is kept goes. -/
theorem prefix_addStaticFile {root : StaticRoot} {disk : Disk} {files : Files}
    {path : Bytes} {watch : Bool} {r : Lookup}
    (h : addStaticFile root disk files path watch = .ok r) :
    files <+: r.files := by
  rcases addStaticFile_cases h with ⟨-, -, hfiles⟩ | ⟨-, fd, e, -, -, hfiles⟩
  · exact hfiles ▸ List.prefix_refl _
  · exact hfiles ▸ List.prefix_append _ _

namespace FileRequest

variable {root : StaticRoot} {disk : Disk} {files : Files} {q : FileRequest}
  {r : Lookup}

/-- **A call for a file that is known** finds it and opens nothing. -/
theorem get_of_known (root : StaticRoot) (disk : Disk)
    (hknown : knownAs files q.path ≠ []) :
    ∃ e ∈ knownAs files q.path,
      q.get root disk files = .ok ⟨some e, files, []⟩ := by
  have hpick : pickFile q.preferCompressed none (knownAs files q.path) ≠ none :=
    fun h => hknown ((pickFile_eq_none_iff _ _ _).mp h).2
  obtain ⟨e, he⟩ := Option.ne_none_iff_exists'.mp hpick
  refine ⟨e, (mem_of_pickFile he).resolve_left nofun, ?_⟩
  unfold FileRequest.get getStaticFile
  rw [he]

/-- **A call for a file that is not known** asks the disk for the file that the
caller means, and perhaps for another one, which is not kept under the path. -/
theorem exists_of_get (hunknown : knownAs files q.path = [])
    (hget : q.get root disk files = .ok r) :
    ∃ plain more,
      addStaticFile root disk files (q.named root) q.watch = .ok plain
      ∧ r.files = plain.files ++ more ∧ knownAs more q.path = [] := by
  rw [get_of_unknown root disk hunknown] at hget
  obtain ⟨plain, hplain, hget⟩ := Except.exists_of_bind_eq_ok hget
  split_ifs at hget
  · obtain ⟨br, hbr, hget⟩ := Except.exists_of_bind_eq_ok hget
    cases hget
    rcases addStaticFile_cases hbr
      with ⟨-, -, hfiles⟩ | ⟨-, fd, e, hnew, -, hfiles⟩
    · exact ⟨plain, [], hplain, hfiles.trans (List.append_nil _).symm, rfl⟩
    · refine ⟨plain, _, hplain, hfiles, knownAs_eq_nil_iff.mpr fun p hp => ?_⟩
      rw [List.mem_singleton.mp hp]
      exact FileEntry.relpath_ne hnew (Or.inr rfl)
  · cases hget
    exact ⟨r, [], hplain, (List.append_nil _).symm, rfl⟩

/-- A call keeps what there is. -/
theorem prefix_get (hget : q.get root disk files = .ok r) :
    files <+: r.files := by
  by_cases hknown : knownAs files q.path = []
  · obtain ⟨plain, more, hplain, hfiles, -⟩ := exists_of_get hknown hget
    exact hfiles ▸ (prefix_addStaticFile hplain).trans (List.prefix_append _ _)
  · obtain ⟨e, -, he⟩ := get_of_known root disk hknown
    rw [he] at hget
    cases hget
    exact List.prefix_refl _

/-- **The file of a call is found again**: whatever is opened in between, the same
call finds an entry under its path, opens nothing, and keeps nothing more. -/
def Reused (root : StaticRoot) (disk : Disk) (files : Files) (q : FileRequest) :
    Prop :=
  ∀ steps files',
    Run.exec (fun files e => FileStep.run root disk files e) files steps
      = .ok files' →
    ∃ e ∈ knownAs files' q.path, q.get root disk files' = .ok ⟨some e, files', []⟩

/-- A step keeps what there is. -/
theorem prefix_step {files' : Files} {e : FileStep}
    (hstep : e.run root disk files = .ok files') : files <+: files' := by
  cases e with
  | load name watch =>
    obtain ⟨r, hadd, rfl⟩ := Except.exists_of_map_eq_ok hstep
    exact prefix_addStaticFile hadd
  | get q =>
    obtain ⟨r, hget, rfl⟩ := Except.exists_of_map_eq_ok hstep
    exact prefix_get hget

/-- So does a run. -/
theorem prefix_exec {steps : List FileStep} {files' : Files}
    (hrun : Run.exec (fun files e => FileStep.run root disk files e) files steps
      = .ok files') : files <+: files' :=
  Run.invariant_of_step (I := fun k => files <+: k)
    (fun _ _ _ hk hstep => hk.trans (prefix_step hstep)) (List.prefix_refl _)
    hrun

/-- **A file is found again** if it is known under the path now. -/
theorem reused_iff_known :
    q.Reused root disk files ↔ knownAs files q.path ≠ [] := by
  constructor
  · intro h
    obtain ⟨e, he, -⟩ := h [] files rfl
    exact List.ne_nil_of_mem he
  · intro hknown steps files' hrun
    obtain ⟨more, rfl⟩ := prefix_exec hrun
    refine get_of_known root disk ?_
    rw [knownAs_append]
    exact List.append_ne_nil_of_left_ne_nil hknown _

/-- **Exactly these calls find their file again**: those that found it the first
time, and those for an absolute path with the top of the tree as static directory,
if the name has no suffix of an encoding. -/
theorem reused_iff (hget : q.get root disk files = .ok r) :
    q.Reused root disk r.files
      ↔ knownAs files q.path ≠ []
        ∨ q.relative = false ∧ root.text = [slash] ∧ Opens disk q.path
          ∧ (extOf q.path ∈ encodings → 46 ∉ q.path) := by
  rw [reused_iff_known]
  by_cases hknown : knownAs files q.path = []
  · rw [or_iff_right (not_not.mpr hknown)]
    obtain ⟨plain, more, hplain, hfiles, hmore⟩ := exists_of_get hknown hget
    rw [hfiles, knownAs_append, hmore, List.append_nil]
    unfold named at hplain
    rcases addStaticFile_cases hplain
      with ⟨hopens, -, hfiles⟩ | ⟨hopens, fd, e, hnew, -, hfiles⟩
    · rw [hfiles]
      refine iff_of_false (not_not.mpr hknown) ?_
      rintro ⟨hrelative, -, hopens', -⟩
      rw [hrelative] at hopens
      exact hopens hopens'
    · have hkey : knownAs plain.files q.path ≠ [] ↔ e.relpath = q.path := by
        rw [hfiles, knownAs_append, hknown, List.nil_append, ne_eq,
          knownAs_eq_nil_iff, List.forall_mem_singleton]
        exact not_not
      rw [hkey]
      cases hrelative : q.relative with
      | true =>
        rw [hrelative, if_pos rfl] at hnew
        refine iff_of_false ?_ fun h => Bool.noConfusion h.1
        rw [← List.append_nil (root.text ++ q.path)] at hnew
        exact FileEntry.relpath_ne hnew (Or.inl rfl)
      | false =>
        rw [hrelative, if_neg Bool.false_ne_true] at hnew hopens
        rw [FileEntry.relpath_eq_iff hnew, and_iff_right rfl, and_left_comm,
          and_iff_right hopens]
  · refine iff_of_true ?_ (Or.inl hknown)
    obtain ⟨more, hmore⟩ := prefix_get hget
    rw [← hmore, knownAs_append]
    exact List.append_ne_nil_of_left_ne_nil hknown _

/-- The index, asked for by its relative path. -/
def index : FileRequest := ⟨bytes "/index.html", false, true, true⟩

/-- The index that was added when the server started. -/
def loadedIndex : Files :=
  [(bytes "/index.html", plainEntry (bytes "/srv/www/index.html")
    (bytes "/index.html") true)]

/-- It is found again. -/
theorem index_reused :
    index.get wwwRoot fullDisk loadedIndex
        = .ok ⟨some (plainEntry (bytes "/srv/www/index.html")
          (bytes "/index.html") true), loadedIndex, []⟩
      ∧ index.Reused wwwRoot fullDisk loadedIndex := by
  have hget : index.get wwwRoot fullDisk loadedIndex
      = .ok ⟨some (plainEntry (bytes "/srv/www/index.html")
        (bytes "/index.html") true), loadedIndex, []⟩ := rfl
  exact ⟨hget, (reused_iff hget).mpr (Or.inl (by decide))⟩

/-- **The index that had to be opened** is kept with two slashes and not found
again. -/
theorem index_not_reused :
    ¬ ∀ (root : StaticRoot) (disk : Disk) (steps : List FileStep)
      (files : Files),
      Run.exec (fun files e => FileStep.run root disk files e) [] steps
        = .ok files →
      ∀ (q : FileRequest) (r : Lookup), q.get root disk files = .ok r →
        r.file ≠ none → q.Reused root disk r.files := by
  intro h
  have hget : index.get wwwRoot fullDisk [] = .ok
      ⟨some (plainEntry (bytes "/srv/www//index.html")
          (bytes "//index.html") true),
        [(bytes "//index.html", plainEntry (bytes "/srv/www//index.html")
          (bytes "//index.html") true)],
        [.access (bytes "/srv/www//index.html"),
          .openRdonly (bytes "/srv/www//index.html")]⟩ := rfl
  have hreused := h wwwRoot fullDisk [] [] rfl index _ hget (Option.some_ne_none _)
  exact reused_iff_known.mp hreused (by decide)

end FileRequest
