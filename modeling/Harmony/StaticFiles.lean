import Harmony.LexicalPath
import Harmony.StringView

/-!
# Static files

A GET request that no route answers is taken for a file. Its `:path` is cut
at the query and percent-decoded (`parsePath`), the bare slash stands for
the index (`submitFileResponse`), and the worker looks for the file among
those it has open (`getStaticFile`). Only if there is none does the worker
go to the disk, with the name of the static directory put in front, once
plainly and once with `.br` behind.

The names are passed as C strings. What they mean is read off their
components (`resolve`), as the kernel does where there are no symbolic
links; `Below` compares that with what the static directory itself means.
Nothing on the way looks at the components of the requested path, so
whether a name stays below the static directory is up to them:
`staysBelow_iff`.
-/

open StringView

/-! ## The requested path -/

/-- `from_hex`, on a signed `char`: the bytes from 128 on are negative. -/
def fromHex (c : UInt8) : UInt8 :=
  if 128 ≤ c ∨ c ≤ 57 then c - 48
  else if c ≤ 90 then c - 65 + 10
  else if c ≤ 122 then c - 97 + 10
  else 0

/-- `percent_decode`: a percent sign with fewer than two characters behind it
is dropped. -/
def percentDecode : Bytes → Bytes
  | [] => []
  | c :: rest =>
    if c = 37 then
      match rest with
      | a :: b :: rest => (fromHex a <<< 4 ||| fromHex b) :: percentDecode rest
      | rest => percentDecode rest
    else if c = 43 then 32 :: percentDecode rest
    else c :: percentDecode rest

/-- `parse_path`, from the `:path` header to `path_` and `query_`. -/
def parsePath (header : Option Bytes) : Bytes × Bytes :=
  let reqpath := header.getD [slash]
  let reqpath := if reqpath = [] then [slash] else reqpath
  let rawPath := reqpath.takeWhile (· ≠ 63)
  let rawQuery := reqpath.dropWhile (· ≠ 63)
  (if 37 ∈ rawPath then percentDecode rawPath else rawPath,
    if 37 ∈ rawQuery then percentDecode rawQuery else rawQuery)

/-! ## The files a worker has open -/

/-- `serve_static_files`: trailing blanks go, and the path ends with a
slash. -/
def serveStaticFiles (path : Bytes) : Bytes :=
  let path := (path.reverse.dropWhile (· = 32)).reverse
  if path.getLast? ≠ some slash then path ++ [slash] else path

/-- **The name of the static directory.** -/
structure StaticRoot where
  /-- The name, as `serve_static_files` leaves it. -/
  text : Bytes
  endsWithSlash : text.getLast? = some slash
  /-- The name is one the operating system can be given. -/
  noNul : 0 ∉ text
  fits : text.length < 2 ^ 64

/-- The directory a server was told to serve. -/
def StaticRoot.ofPath (path : Bytes) (noNul : 0 ∉ path)
    (fits : path.length + 1 < 2 ^ 64) : StaticRoot where
  text := serveStaticFiles path
  endsWithSlash := by
    unfold serveStaticFiles
    dsimp only
    split_ifs with h
    · rw [List.getLast?_append]
      rfl
    · exact not_not.mp h
  noNul := by
    have hcut : 0 ∉ (path.reverse.dropWhile (· = 32)).reverse := by
      intro h
      exact noNul (List.mem_reverse.mp
        ((List.dropWhile_suffix _).mem (List.mem_reverse.mp h)))
    unfold serveStaticFiles
    dsimp only
    split_ifs
    · rw [List.mem_append, not_or]
      exact ⟨hcut, by decide⟩
    · exact hcut
  fits := by
    have hcut := (List.dropWhile_suffix (l := path.reverse)
      (fun c => decide (c = 32))).length_le
    rw [List.length_reverse] at hcut
    unfold serveStaticFiles
    dsimp only
    split_ifs
    · rw [List.length_append, List.length_reverse, List.length_singleton]
      omega
    · rw [List.length_reverse]
      omega

/-- **An open file.** -/
structure FileEntry where
  fd : ℕ
  /-- The name it was opened under. -/
  path : Bytes
  /-- Its name below the static directory, less the suffix of an encoding. -/
  relpath : Bytes
  ext : Bytes
  compressed : Bool
  encoding : Bytes
  watch : Bool
  deriving DecidableEq, Repr

/-- What is behind the last dot, or all of it. -/
def extOf (path : Bytes) : Bytes :=
  (path.reverse.takeWhile (· ≠ 46)).reverse

/-- What is in front of the last dot, or all of it. -/
def withoutExt (path : Bytes) : Bytes :=
  if 46 ∈ path then (path.reverse.dropWhile (· ≠ 46)).tail.reverse else path

/-- `check_if_compressed`. -/
def FileEntry.checkIfCompressed (e : FileEntry) (path : Bytes) : FileEntry :=
  if e.ext = bytes "br" then
    { e with
      compressed := true
      encoding := bytes "br"
      ext := extOf (withoutExt path)
      relpath := withoutExt e.relpath }
  else if e.ext = bytes "gzip" ∨ e.ext = bytes "gz" then
    { e with
      compressed := true
      encoding := bytes "gzip"
      ext := extOf (withoutExt path)
      relpath := withoutExt e.relpath }
  else e

/-- **The disk**, as far as `access` and `open` show it. -/
structure Disk where
  /-- Whether a file may be read. -/
  access : Bytes → Bool
  /-- The descriptor of an opened file. -/
  openRdonly : Bytes → Option ℕ

/-- A call that takes a file name. -/
inductive FileCall where
  | access (name : Bytes)
  | openRdonly (name : Bytes)
  deriving DecidableEq, Repr

/-- The file name of a call. -/
def FileCall.name : FileCall → Bytes
  | access name => name
  | openRdonly name => name

/-- `c_str()` as the operating system reads it, up to the first NUL. -/
def cStr (s : Bytes) : Bytes := s.takeWhile (· ≠ 0)

/-- The worker's files by their relative paths. Those of one path are in the
order in which they were added. -/
abbrev Files := List (Bytes × FileEntry)

/-- What a lookup yields: the file, the files known after it, and the calls
it made. -/
structure Lookup where
  file : Option FileEntry
  files : Files
  calls : List FileCall

/-- The constructor of `FileEntry`. -/
def FileEntry.new (root : StaticRoot) (fd : ℕ) (path : Bytes) (watch : Bool) :
    Except Fault FileEntry := do
  let relpath ← substr path (subSizeT root.text.length 1) path.length
  .ok (FileEntry.checkIfCompressed {
    fd := fd
    path := path
    relpath := relpath
    ext := extOf path
    compressed := false
    encoding := []
    watch := watch } path)

/-- **`Worker::add_static_file`.** -/
def addStaticFile (root : StaticRoot) (disk : Disk) (files : Files)
    (path : Bytes) (watch : Bool) : Except Fault Lookup :=
  let name := cStr path
  if disk.access name = false then
    .ok ⟨none, files, [.access name]⟩
  else
    match disk.openRdonly name with
    | none => .ok ⟨none, files, [.access name, .openRdonly name]⟩
    | some fd => do
      let e ← FileEntry.new root fd path watch
      .ok ⟨some e, files ++ [(e.relpath, e)], [.access name, .openRdonly name]⟩

/-- The loop over the files of one path: the first one of the kind preferred,
else the last one. -/
def pickFile (preferCompressed : Bool) (ret : Option FileEntry) :
    List FileEntry → Option FileEntry
  | [] => ret
  | e :: es =>
    if preferCompressed && e.compressed then some e
    else if !preferCompressed && !e.compressed then some e
    else pickFile preferCompressed (some e) es

/-- The files known under a path. -/
def knownAs (files : Files) (path : Bytes) : List FileEntry :=
  (files.filter (·.1 = path)).map Prod.snd

/-- **`Worker::get_static_file`.** -/
def getStaticFile (root : StaticRoot) (disk : Disk) (files : Files)
    (path : Bytes) (preferCompressed relative watch : Bool) :
    Except Fault Lookup :=
  match pickFile preferCompressed none (knownAs files path) with
  | some ret => .ok ⟨some ret, files, []⟩
  | none => do
    let plain ← addStaticFile root disk files
      (if relative then root.text ++ path else path) watch
    if preferCompressed then
      let br ← addStaticFile root disk plain.files
        (root.text ++ path ++ bytes ".br") watch
      .ok ⟨if br.file.isSome then br.file else plain.file, br.files,
        plain.calls ++ br.calls⟩
    else
      .ok plain

/-- The path of the file a request asks for. -/
def requestedFile (path : Bytes) : Bytes :=
  if path = [slash] then bytes "/index.html" else path

/-- **`Stream::submit_file_response()`**, up to the file it sends: the
defaults prefer a compressed file, take the path as relative and watch the
file. -/
def submitFileResponse (root : StaticRoot) (disk : Disk) (files : Files)
    (path : Bytes) : Except Fault Lookup :=
  getStaticFile root disk files (requestedFile path) true true true

/-! ## What a name means -/

/-- The components of a name: the empty one and `.` stay, `..` climbs. -/
def components (name : Bytes) : List (Component Bytes) :=
  (name.splitOn slash).map (fun part =>
    if part = [] ∨ part = bytes "." then .here
    else if part = bytes ".." then .up
    else .name part)

/-- A name that starts at the top of the tree. -/
def isAbsolute (name : Bytes) : Bool := name.head? == some slash

/-- **What a name means by its text**: where the walk along its components
leads, from the top of the tree or from the working directory. -/
def resolve (name : Bytes) : Place Bytes :=
  Place.walk (isAbsolute name) Place.start (components name)

/-- **A name stays below the static directory**: both start at the same
place, and the name leads to the directory or below it. -/
def Below (root : StaticRoot) (name : Bytes) : Prop :=
  isAbsolute name = isAbsolute root.text
    ∧ (resolve root.text).Inside (resolve name)

/-- **The requested path comes back**: as far as its components climb, they
descend again by the names of the static directory. -/
def ComesBack (root : StaticRoot) (path : Bytes) : Prop :=
  Place.ComesBack (isAbsolute root.text) (resolve root.text)
    (Place.walk false Place.start (components (cStr path)))

instance (root : StaticRoot) (path : Bytes) :
    Decidable (ComesBack root path) :=
  inferInstanceAs (Decidable (Place.ComesBack _ _ _))

/-- The components of two names with a slash between them. -/
theorem components_append_slash (a b : Bytes) :
    components (a ++ slash :: b) = components a ++ components b := by
  unfold components
  rw [List.splitOn_append_cons_self, List.map_append]

/-- The static directory without its last slash. -/
theorem StaticRoot.text_eq (root : StaticRoot) :
    ∃ dir, root.text = dir ++ [slash] :=
  List.getLast?_eq_some_iff.mp root.endsWithSlash

/-- The slash at its end does not change what the directory means. -/
theorem resolve_dir (root : StaticRoot) {dir : Bytes}
    (h : root.text = dir ++ [slash]) :
    resolve root.text
      = Place.walk (isAbsolute root.text) Place.start (components dir) := by
  rw [resolve]
  conv_lhs =>
    arg 3
    rw [h, components_append_slash]
  rw [Place.walk_append]
  rfl

/-- **A name below the static directory is one whose path comes back.** -/
theorem below_iff_comesBack (root : StaticRoot) (path : Bytes) :
    Below root (cStr (root.text ++ path)) ↔ ComesBack root path := by
  obtain ⟨dir, hdir⟩ := root.text_eq
  have hcut : cStr (root.text ++ path) = root.text ++ cStr path := by
    refine List.takeWhile_append_of_pos fun c hc => ?_
    exact decide_eq_true fun h => root.noNul (h ▸ hc)
  have habs : isAbsolute (root.text ++ cStr path) = isAbsolute root.text := by
    rw [hdir]
    cases dir <;> rfl
  have hcomponents : components (root.text ++ cStr path)
      = components dir ++ components (cStr path) := by
    rw [hdir, List.append_assoc]
    exact components_append_slash dir (cStr path)
  have hresolve : resolve (root.text ++ cStr path)
      = Place.andThen (isAbsolute root.text) (resolve root.text)
          (Place.walk false Place.start (components (cStr path))) := by
    rw [resolve, habs, hcomponents, Place.walk_append, ← resolve_dir root hdir,
      Place.walk_eq_andThen]
  rw [Below, hcut, habs, hresolve, Place.inside_andThen]
  exact and_iff_right rfl

/-! ## The names passed to the disk -/

/-- **A file below the static directory is tried under one name**, and the
lookup returns. -/
theorem addStaticFile_calls (root : StaticRoot) (disk : Disk) (files : Files)
    (path : Bytes) (watch : Bool) :
    ∃ r, addStaticFile root disk files (root.text ++ path) watch = .ok r
      ∧ r.calls ≠ [] ∧ ∀ c ∈ r.calls, c.name = cStr (root.text ++ path) := by
  unfold addStaticFile
  dsimp only
  split_ifs with haccess
  · exact ⟨_, rfl, by simp, by simp [FileCall.name]⟩
  · cases disk.openRdonly (cStr (root.text ++ path)) with
    | none => exact ⟨_, rfl, by simp, by simp [FileCall.name]⟩
    | some fd =>
      obtain ⟨dir, hdir⟩ := root.text_eq
      have hone : 1 ≤ root.text.length := by
        rw [hdir, List.length_append]
        exact Nat.le_add_left _ _
      have hpos : subSizeT root.text.length 1
          ≤ (root.text ++ path).length := by
        rw [subSizeT_of_le hone root.fits, List.length_append]
        omega
      dsimp only
      rw [FileEntry.new, substr_of_le _ hpos, Except.ok_bind, Except.ok_bind]
      exact ⟨_, rfl, by simp, by simp [FileCall.name]⟩

/-- A file is picked where there is one. -/
theorem pickFile_eq_none_iff (preferCompressed : Bool) (ret : Option FileEntry)
    (es : List FileEntry) :
    pickFile preferCompressed ret es = none ↔ ret = none ∧ es = [] := by
  induction es generalizing ret with
  | nil => simp [pickFile]
  | cons e es ih =>
    rw [pickFile]
    split_ifs
    · simp
    · simp
    · rw [ih]
      simp

/-- The lookup of a file that is not known tries its plain name and the one
with `.br` behind. -/
theorem submitFileResponse_calls (root : StaticRoot) (disk : Disk)
    (files : Files) (path : Bytes) (h : knownAs files (requestedFile path) = []) :
    ∃ r, submitFileResponse root disk files path = .ok r ∧
      ∀ P : Bytes → Prop, (∀ c ∈ r.calls, P c.name) ↔
        P (cStr (root.text ++ requestedFile path)) ∧
          P (cStr (root.text ++ (requestedFile path ++ bytes ".br"))) := by
  obtain ⟨plain, hplain, hne, hname⟩ := addStaticFile_calls root disk files
    (requestedFile path) true
  obtain ⟨br, hbr, hne', hname'⟩ := addStaticFile_calls root disk plain.files
    (requestedFile path ++ bytes ".br") true
  have hpick : pickFile true none (knownAs files (requestedFile path)) = none :=
    (pickFile_eq_none_iff _ _ _).mpr ⟨rfl, h⟩
  refine ⟨⟨if br.file.isSome then br.file else plain.file, br.files,
    plain.calls ++ br.calls⟩, ?_, ?_⟩
  · rw [submitFileResponse, getStaticFile, hpick]
    simp only [if_true, hplain, Except.ok_bind, List.append_assoc, hbr]
  · -- both lists of calls have one name, and neither is empty
    have hforall : ∀ (calls : List FileCall) (name : Bytes) (P : Bytes → Prop),
        calls ≠ [] → (∀ c ∈ calls, c.name = name) →
          ((∀ c ∈ calls, P c.name) ↔ P name) := by
      intro calls name P hne hname
      constructor
      · intro hall
        obtain ⟨c, hc⟩ := List.exists_mem_of_ne_nil calls hne
        exact hname c hc ▸ hall c hc
      · intro hP c hc
        rw [hname c hc]
        exact hP
    intro P
    rw [List.forall_mem_append, hforall _ _ P hne hname,
      hforall _ _ P hne' hname']

/-- **The request stays below the static directory**: the lookup returns, and
every name passed to `access` or `open` is below. -/
def StaysBelow (root : StaticRoot) (disk : Disk) (files : Files)
    (header : Option Bytes) : Prop :=
  ∃ r, submitFileResponse root disk files (parsePath header).1 = .ok r
    ∧ ∀ c ∈ r.calls, Below root c.name

/-- **Exactly the requests for known files and for paths that come back stay
below the static directory.** -/
theorem staysBelow_iff (root : StaticRoot) (disk : Disk) (files : Files)
    (header : Option Bytes) :
    StaysBelow root disk files header ↔
      knownAs files (requestedFile (parsePath header).1) ≠ [] ∨
        ComesBack root (requestedFile (parsePath header).1) ∧
          ComesBack root
            (requestedFile (parsePath header).1 ++ bytes ".br") := by
  by_cases hknown :
      knownAs files (requestedFile (parsePath header).1) = []
  · obtain ⟨r, hr, hcalls⟩ := submitFileResponse_calls root disk files _ hknown
    have hbelow := hcalls (Below root)
    rw [below_iff_comesBack, below_iff_comesBack] at hbelow
    rw [StaysBelow, hr, ← hbelow]
    constructor
    · rintro ⟨r', hr', h⟩
      cases hr'
      exact Or.inr h
    · rintro (h | h)
      · exact absurd hknown h
      · exact ⟨r, rfl, h⟩
  · refine iff_of_true ?_ (Or.inl hknown)
    have hpick : pickFile true none
        (knownAs files (requestedFile (parsePath header).1)) ≠ none :=
      fun h => hknown ((pickFile_eq_none_iff _ _ _).mp h).2
    obtain ⟨ret, hret⟩ := Option.ne_none_iff_exists'.mp hpick
    refine ⟨⟨some ret, files, []⟩, ?_, by simp⟩
    rw [submitFileResponse, getStaticFile, hret]

/-- The escapes of a path are decoded before its components are looked at. -/
example : (parsePath (some (bytes "/%2e%2e/a?b"))).1 = bytes "/../a" := by
  decide +kernel

/-- The directory of a usual installation. -/
def wwwRoot : StaticRoot :=
  StaticRoot.ofPath (bytes "/srv/www") (by decide) (by decide)

/-- **A path may climb out of the static directory.** -/
theorem parent_not_staysBelow :
    ¬ ∀ (root : StaticRoot) (disk : Disk) (files : Files) (reqpath : Bytes),
      reqpath.head? = some slash →
      StaysBelow root disk files (some reqpath) := by
  intro h
  have hstays := h wwwRoot ⟨fun _ => false, fun _ => none⟩ []
    (bytes "/../secret") (by decide)
  obtain ⟨r, hr, hbelow⟩ := hstays
  obtain ⟨r', hr', hcalls⟩ := submitFileResponse_calls wwwRoot
    ⟨fun _ => false, fun _ => none⟩ []
    (parsePath (some (bytes "/../secret"))).1 rfl
  rw [hr] at hr'
  cases hr'
  have hplain := ((hcalls (Below wwwRoot)).mp hbelow).1
  rw [below_iff_comesBack] at hplain
  exact absurd hplain (by decide)
