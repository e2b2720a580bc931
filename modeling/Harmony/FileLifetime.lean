import Harmony.DataStream
import Harmony.FileReuse
import Mathlib.Data.List.Nodup

/-!
# The lifetime of open files

A file response sends from an entry of the worker's files, which the
`FileStream` knows by a bare pointer, over many turns of the event loop. The
watcher of a file may report in between that the file is gone. Then everything
that is kept under its relative path is erased, the plain file and the compressed
ones alike, and closed.

`FileWorker` is a worker with its files and its file responses, where entries have
an identity, and `FileWorker.step` one response, one lookup, one `send`, or one
report of a watcher, in any order. Nothing makes a report wait for a response. As
long as none comes in for a path that an unfinished response reads from, every
unfinished response refers to an entry that is there
(`FileWorker.held_of_run`), and the condition is exact at each report
(`FileWorker.held_deleted_iff`).
-/

open StringView

/-! ## The files, by their identity -/

/-- `FileEntry::FileInfo`. -/
structure FileInfo where
  mtime : ℤ
  length : ℕ
  /-- The length of a file is an `off_t`. -/
  fits : length < 2 ^ 63
  deriving DecidableEq

/-- **An entry with its identity**, and what is known of the file. -/
structure KeptFile where
  id : ℕ
  entry : FileEntry
  info : FileInfo
  newInfo : FileInfo
  updated : Bool
  deriving DecidableEq

namespace KeptFile

/-- `FileEntry::info`: what it leaves. -/
def takeInfo (k : KeptFile) : KeptFile :=
  if k.updated then { k with info := k.newInfo, updated := false } else k

/-- `FileEntry::update_info`. -/
def updateInfo (info : FileInfo) (k : KeptFile) : KeptFile :=
  { k with newInfo := info, updated := true }

@[simp] theorem id_takeInfo (k : KeptFile) : k.takeInfo.id = k.id := by
  unfold takeInfo
  split_ifs <;> rfl

@[simp] theorem id_updateInfo (info : FileInfo) (k : KeptFile) :
    (k.updateInfo info).id = k.id := rfl

/-- What is known of a file is no part of its identity. -/
theorem id_ite {f : KeptFile → KeptFile} (hf : ∀ k, (f k).id = k.id) (id : ℕ)
    (k : KeptFile) : (if k.id = id then f k else k).id = k.id := by
  split_ifs
  · exact hf k
  · rfl

end KeptFile

/-- **The files of a worker.** No two of them are the same one. -/
structure FileTable where
  kept : List KeptFile
  /-- The identity of the file that is opened next. -/
  next : ℕ
  lt_next : ∀ k ∈ kept, k.id < next
  nodup : (kept.map KeptFile.id).Nodup

namespace FileTable

/-- No file is open. -/
def empty : FileTable :=
  ⟨[], 0, fun _ h => absurd h List.not_mem_nil, List.nodup_nil⟩

/-- The files by their relative paths. -/
def files (t : FileTable) : Files :=
  t.kept.map fun k => (k.entry.relpath, k.entry)

/-- An entry is there. -/
def Holds (t : FileTable) (id : ℕ) : Prop := ∃ k ∈ t.kept, k.id = id

instance (t : FileTable) (id : ℕ) : Decidable (t.Holds id) :=
  inferInstanceAs (Decidable (∃ k ∈ t.kept, k.id = id))

/-- The entry with an identity. -/
def find (t : FileTable) (id : ℕ) : Option KeptFile := t.kept.find? (·.id = id)

/-- The entry of a file that is opened. -/
def opened (t : FileTable) (e : FileEntry) (info : FileInfo) : KeptFile :=
  ⟨t.next, e, info, info, false⟩

/-- It is kept. -/
def push (t : FileTable) (e : FileEntry) (info : FileInfo) : FileTable where
  kept := t.kept ++ [t.opened e info]
  next := t.next + 1
  lt_next := fun k hk => by
    rcases List.mem_append.mp hk with hk | hk
    · exact (t.lt_next k hk).trans (Nat.lt_succ_self _)
    · rw [List.mem_singleton.mp hk]
      exact Nat.lt_succ_self _
  nodup := by
    rw [List.map_append, List.map_singleton]
    refine List.Nodup.append t.nodup (List.nodup_singleton _) ?_
    rw [List.disjoint_singleton]
    intro hmem
    obtain ⟨k, hk, hid⟩ := List.mem_map.mp hmem
    exact absurd hid (t.lt_next k hk).ne

/-- Something changes in what is known of one file. -/
def modify (t : FileTable) (f : KeptFile → KeptFile) (hf : ∀ k, (f k).id = k.id)
    (id : ℕ) : FileTable where
  kept := t.kept.map fun k => if k.id = id then f k else k
  next := t.next
  lt_next := fun k hk => by
    obtain ⟨k', hk', rfl⟩ := List.mem_map.mp hk
    rw [KeptFile.id_ite hf]
    exact t.lt_next k' hk'
  nodup := by
    have hids : KeptFile.id ∘ (fun k => if k.id = id then f k else k)
        = KeptFile.id := funext (KeptFile.id_ite hf id)
    rw [List.map_map, hids]
    exact t.nodup

/-- `files_.erase`: everything that is kept under a relative path goes. -/
def erase (t : FileTable) (relpath : Bytes) : FileTable where
  kept := t.kept.filter fun k => k.entry.relpath ≠ relpath
  next := t.next
  lt_next := fun k hk => t.lt_next k (List.mem_of_mem_filter hk)
  nodup := t.nodup.sublist (List.filter_sublist.map _)

/-- **`Worker::add_static_file`**, with what `fstat` says of the file. -/
def add (t : FileTable) (root : StaticRoot) (disk : Disk)
    (stat : Bytes → FileInfo) (path : Bytes) (watch : Bool) :
    Except Fault (Option KeptFile × FileTable) := do
  let r ← addStaticFile root disk t.files path watch
  match r.file with
  | none => .ok (none, t)
  | some e => .ok (some (t.opened e (stat path)), t.push e (stat path))

/-- The loop over the files of one path, as in `pickFile`. -/
def pick (preferCompressed : Bool) (ret : Option KeptFile) :
    List KeptFile → Option KeptFile
  | [] => ret
  | k :: ks =>
    if preferCompressed && k.entry.compressed then some k
    else if !preferCompressed && !k.entry.compressed then some k
    else pick preferCompressed (some k) ks

/-- **`Worker::get_static_file`.** -/
def get (t : FileTable) (root : StaticRoot) (disk : Disk)
    (stat : Bytes → FileInfo) (q : FileRequest) :
    Except Fault (Option KeptFile × FileTable) :=
  match pick q.preferCompressed none
      (t.kept.filter (·.entry.relpath = q.path)) with
  | some k => .ok (some k, t)
  | none => do
    let (plain, t) ← t.add root disk stat (q.named root) q.watch
    if q.preferCompressed then
      let (br, t) ←
        t.add root disk stat (root.text ++ q.path ++ bytes ".br") q.watch
      .ok (if br.isSome then br else plain, t)
    else .ok (plain, t)

end FileTable

/-! ## What becomes of an entry -/

namespace FileTable

variable {t : FileTable}

/-- An identity stands for one entry. -/
theorem eq_of_id_eq {k k' : KeptFile} (hk : k ∈ t.kept) (hk' : k' ∈ t.kept)
    (hid : k.id = k'.id) : k = k' :=
  List.inj_on_of_nodup_map t.nodup hk hk' hid

/-- So the entry with an identity is the one that is found. -/
theorem find_eq_some_iff {id : ℕ} {k : KeptFile} :
    t.find id = some k ↔ k ∈ t.kept ∧ k.id = id := by
  have hfound : ∀ {k}, t.find id = some k → k ∈ t.kept ∧ k.id = id := by
    intro k h
    have hid := List.find?_some (p := fun k : KeptFile => decide (k.id = id)) h
    exact ⟨List.mem_of_find?_eq_some h, of_decide_eq_true hid⟩
  refine ⟨hfound, ?_⟩
  rintro ⟨hk, hid⟩
  cases hfind : t.find id with
  | none => exact absurd (decide_eq_true hid) (List.find?_eq_none.mp hfind k hk)
  | some k' =>
    obtain ⟨hk', hid'⟩ := hfound hfind
    rw [eq_of_id_eq hk' hk (hid'.trans hid.symm)]

/-- What is there stays when a file is opened. -/
theorem Holds.push {id : ℕ} (h : t.Holds id) (e : FileEntry) (info : FileInfo) :
    (t.push e info).Holds id := by
  obtain ⟨k, hk, hid⟩ := h
  exact ⟨k, List.mem_append_left _ hk, hid⟩

/-- What is known of a file does not matter. -/
theorem holds_modify {f : KeptFile → KeptFile} (hf : ∀ k, (f k).id = k.id)
    (j id : ℕ) : (t.modify f hf j).Holds id ↔ t.Holds id := by
  constructor
  · rintro ⟨k, hk, rfl⟩
    obtain ⟨k', hk', rfl⟩ := List.mem_map.mp hk
    exact ⟨k', hk', (KeptFile.id_ite hf j k').symm⟩
  · rintro ⟨k, hk, rfl⟩
    exact ⟨_, List.mem_map_of_mem hk, KeptFile.id_ite hf j k⟩

/-- **What is left by an erasure** are the entries of other paths. -/
theorem holds_erase {relpath : Bytes} {id : ℕ} :
    (t.erase relpath).Holds id
      ↔ ∃ k ∈ t.kept, k.id = id ∧ k.entry.relpath ≠ relpath := by
  unfold Holds erase
  simp only [List.mem_filter, decide_eq_true_eq, and_assoc, and_comm]

/-- **What a lookup does**: nothing goes, and what is returned is there. -/
structure Keeps (t : FileTable) (r : Option KeptFile × FileTable) : Prop where
  keeps : ∀ id, t.Holds id → r.2.Holds id
  holds : ∀ k ∈ r.1, r.2.Holds k.id

theorem Keeps.refl (t : FileTable) : t.Keeps (none, t) :=
  ⟨fun _ h => h, fun _ h => absurd h (Option.not_mem_none _)⟩

variable {root : StaticRoot} {disk : Disk} {stat : Bytes → FileInfo}
  {r : Option KeptFile × FileTable}

theorem keeps_add {path : Bytes} {watch : Bool}
    (h : t.add root disk stat path watch = .ok r) : t.Keeps r := by
  unfold add at h
  obtain ⟨r', -, h⟩ := Except.exists_of_bind_eq_ok h
  cases hfile : r'.file with
  | none =>
    rw [hfile] at h
    cases h
    exact .refl t
  | some e =>
    rw [hfile] at h
    cases h
    refine ⟨fun _ hid => hid.push e _, fun k hk => ?_⟩
    rw [← Option.some.inj hk]
    exact ⟨_, List.mem_append_right _ (List.mem_singleton_self _), rfl⟩

/-- An entry that is picked is one of those looked at. -/
theorem mem_of_pick {preferCompressed : Bool} {ret : Option KeptFile}
    {k : KeptFile} {ks : List KeptFile} (h : pick preferCompressed ret ks = some k) :
    ret = some k ∨ k ∈ ks := by
  induction ks generalizing ret with
  | nil => exact Or.inl h
  | cons k' ks ih =>
    rw [pick] at h
    split_ifs at h
    · exact Or.inr (Option.some.inj h ▸ List.mem_cons_self)
    · exact Or.inr (Option.some.inj h ▸ List.mem_cons_self)
    · rcases ih h with heq | hmem
      · exact Or.inr (Option.some.inj heq ▸ List.mem_cons_self)
      · exact Or.inr (List.mem_cons_of_mem _ hmem)

theorem keeps_get {q : FileRequest} (h : t.get root disk stat q = .ok r) :
    t.Keeps r := by
  unfold get at h
  cases hpick : pick q.preferCompressed none
      (t.kept.filter (·.entry.relpath = q.path)) with
  | some k =>
    rw [hpick] at h
    cases h
    refine ⟨fun _ hid => hid, fun k' hk' => ?_⟩
    rw [← Option.some.inj hk']
    exact ⟨k, List.mem_of_mem_filter ((mem_of_pick hpick).resolve_left nofun), rfl⟩
  | none =>
    rw [hpick] at h
    obtain ⟨⟨plain, t₁⟩, hplain, h⟩ := Except.exists_of_bind_eq_ok h
    have hkeeps := keeps_add hplain
    dsimp only at h
    split_ifs at h
    · obtain ⟨⟨br, t₂⟩, hbr, h⟩ := Except.exists_of_bind_eq_ok h
      have hkeeps' := keeps_add hbr
      cases h
      refine ⟨fun id hid => hkeeps'.keeps id (hkeeps.keeps id hid), fun k hk => ?_⟩
      dsimp only at hk
      split_ifs at hk
      · exact hkeeps'.holds k hk
      · exact hkeeps'.keeps k.id (hkeeps.holds k hk)
    · cases h
      exact hkeeps

end FileTable

/-! ## Forgetting the identities -/

namespace FileTable

variable (root : StaticRoot) (disk : Disk) (stat : Bytes → FileInfo)

/-- A lookup without the identities. -/
def forget (r : Option KeptFile × FileTable) : Option FileEntry × Files :=
  (r.1.map KeptFile.entry, r.2.files)

/-- The entries of one path. -/
theorem knownAs_files (t : FileTable) (path : Bytes) :
    knownAs t.files path
      = (t.kept.filter (·.entry.relpath = path)).map KeptFile.entry := by
  unfold knownAs files
  rw [List.filter_map, List.map_map]
  rfl

end FileTable

/-! ## Responses and reports -/

/-- **A file response.** Its `FileStream` knows the entry by its identity. -/
structure FileResponse where
  file : ℕ
  source : FileStream
  /-- Whether the `FileStream` was submitted, and not a `304` without a body. -/
  submitted : Bool

/-- **A response is in flight** as long as there are bytes of the file to send. -/
def FileResponse.InFlight (r : FileResponse) : Prop :=
  r.submitted = true ∧ r.source.pos < r.source.length

instance (r : FileResponse) : Decidable r.InFlight :=
  inferInstanceAs (Decidable (_ ∧ _))

/-- **A worker**, as far as its files go. -/
structure FileWorker where
  table : FileTable
  responses : List FileResponse

/-- **How a worker may come to a halt.** -/
inductive Halt where
  | fault (f : Fault)
  /-- An entry that is gone is used. -/
  | dangling
  /-- A read is waited for. -/
  | waiting
  deriving DecidableEq

namespace FileResponse

/-- **`FileStream::send`**, which asks the entry for the descriptor at every
`pread`. -/
def send {N : ℕ} (r : FileResponse) (t : FileTable) (wb : Buffer N) (wlen : ℕ)
    (reads : List PreadAnswer) : Except Halt FileResponse :=
  if r.source.remaining.1 < wlen then .error (.fault .assertion)
  else if wlen ≠ 0 ∧ ¬ t.Holds r.file then .error .dangling
  else
    match r.source.send wb wlen reads with
    | .returned _ source _ => .ok { r with source := source }
    | .fault f => .error (.fault f)
    | .unfinished => .error .waiting

/-- The response to a request that has found a file, with the date of
`if-modified-since`. -/
def start (k : KeptFile) (ims : Option ℤ) : FileResponse where
  file := k.id
  source := {
    fd := k.entry.fd
    length := k.takeInfo.info.length
    pos := 0
    pos_le := Nat.zero_le _
    fits := k.takeInfo.info.fits.trans (by decide) }
  submitted :=
    match ims with
    | some lastMod => !decide (k.takeInfo.info.mtime ≤ lastMod)
    | none => true

end FileResponse

namespace FileWorker

variable {N : ℕ}

/-- **What happens on a worker.** Every step that asks the disk may find another
one, and responses are known by their place. -/
inductive Step (N : ℕ) where
  /-- A file of the static directory is added when the server starts. -/
  | load (disk : Disk) (stat : Bytes → FileInfo) (name : Bytes)
  /-- `Stream::submit_file_response`. -/
  | respond (disk : Disk) (stat : Bytes → FileInfo) (q : FileRequest)
    (ims : Option ℤ)
  /-- `get_static_file` alone. -/
  | lookup (disk : Disk) (stat : Bytes → FileInfo) (q : FileRequest)
  | send (i : ℕ) (wb : Buffer N) (wlen : ℕ) (reads : List PreadAnswer)
  /-- The watcher of a file reports what it is like now. -/
  | updated (id : ℕ) (info : FileInfo)
  /-- The watcher of a file reports that it is gone. -/
  | deleted (id : ℕ)
  /-- The stream of a response is closed. -/
  | close (i : ℕ)

/-- A worker without files. -/
def start : FileWorker := ⟨.empty, []⟩

/-- **One step.** A watcher is there as long as its entry is. -/
def step (root : StaticRoot) (w : FileWorker) : Step N → Except Halt FileWorker
  | .load disk stat name =>
    match w.table.add root disk stat (root.text ++ name) true with
    | .error f => .error (.fault f)
    | .ok (_, table) => .ok { w with table := table }
  | .respond disk stat q ims =>
    match w.table.get root disk stat q with
    | .error f => .error (.fault f)
    | .ok (none, table) => .ok { w with table := table }
    | .ok (some k, table) => .ok {
        table := table.modify KeptFile.takeInfo KeptFile.id_takeInfo k.id
        responses := w.responses ++ [.start k ims] }
  | .lookup disk stat q =>
    match w.table.get root disk stat q with
    | .error f => .error (.fault f)
    | .ok (_, table) => .ok { w with table := table }
  | .send i wb wlen reads =>
    match w.responses[i]? with
    | none => .ok w
    | some r =>
      if r.submitted then
        match r.send w.table wb wlen reads with
        | .error f => .error f
        | .ok r => .ok { w with responses := w.responses.set i r }
      else .ok w
  | .updated id info =>
    match w.table.find id with
    | none => .ok w
    | some k =>
      if k.entry.watch then
        .ok { w with
          table := w.table.modify (KeptFile.updateInfo info)
            (KeptFile.id_updateInfo info) id }
      else .ok w
  | .deleted id =>
    match w.table.find id with
    | none => .ok w
    | some k =>
      if k.entry.watch then .ok { w with table := w.table.erase k.entry.relpath }
      else .ok w
  | .close i => .ok { w with responses := w.responses.eraseIdx i }

/-- **The files of the responses are held**: a response in flight refers to an
entry that is there. -/
def Held (w : FileWorker) : Prop :=
  ∀ r ∈ w.responses, r.InFlight → w.table.Holds r.file

instance (w : FileWorker) : Decidable w.Held :=
  inferInstanceAs (Decidable (∀ r ∈ w.responses, _))

/-- **A step spares the responses**: it is no report that a file is gone, or no
response in flight reads from an entry under the same relative path. -/
def Spares (w : FileWorker) : Step N → Prop
  | .deleted id =>
    ∀ k ∈ w.table.kept, k.id = id → k.entry.watch = true →
      ∀ r ∈ w.responses, r.InFlight →
        ∀ k' ∈ w.table.kept, k'.id = r.file →
          k'.entry.relpath ≠ k.entry.relpath
  | _ => True

end FileWorker

/-! ## What a response reads from -/

/-- A read does not go back, and the length stays. -/
theorem FileStream.le_pos_of_sendLoop {N : ℕ} {reads : List PreadAnswer}
    {s s' : FileStream} {wb wb' : Buffer N} {wlen : ℕ} {code : SendCode}
    (h : s.sendLoop wb wlen reads = .returned code s' wb') :
    s.pos ≤ s'.pos ∧ s'.length = s.length := by
  induction reads generalizing s wb wlen with
  | nil =>
    cases wlen with
    | zero =>
      cases h
      exact ⟨le_rfl, rfl⟩
    | succ wlen => cases h
  | cons a reads ih =>
    cases wlen with
    | zero =>
      cases h
      exact ⟨le_rfl, rfl⟩
    | succ wlen =>
      cases a with
      | interrupted => exact ih h
      | failed =>
        cases h
        exact ⟨le_rfl, rfl⟩
      | data bs =>
        rw [sendLoop] at h
        cases hread : wb.readInto (bs.take (wlen + 1)) with
        | error f =>
          rw [hread] at h
          cases h
        | ok wb₁ =>
          rw [hread] at h
          dsimp only at h
          split_ifs at h
          have hrest := ih h
          exact ⟨(Nat.le_add_right _ _).trans hrest.1, hrest.2⟩

/-- **A response that has sent something** reads from the same entry, and was in
flight before if it is in flight now. -/
theorem FileResponse.send_spec {N : ℕ} {r r' : FileResponse} {t : FileTable}
    {wb : Buffer N} {wlen : ℕ} {reads : List PreadAnswer}
    (h : r.send t wb wlen reads = .ok r') :
    r'.file = r.file ∧ (r'.InFlight → r.InFlight) := by
  unfold send at h
  split_ifs at h with hwlen hdangling
  cases hsend : r.source.send wb wlen reads with
  | fault f =>
    rw [hsend] at h
    cases h
  | unfinished =>
    rw [hsend] at h
    cases h
  | returned code source wb' =>
    rw [hsend] at h
    cases h
    refine ⟨rfl, fun hflight => ⟨hflight.1, ?_⟩⟩
    unfold FileStream.send at hsend
    rw [if_pos (not_lt.mp hwlen)] at hsend
    have hpos := FileStream.le_pos_of_sendLoop hsend
    have hlt : source.pos < source.length := hflight.2
    omega

/-- **A response whose entry is there** does not use one that is gone. -/
theorem FileResponse.send_ne_dangling {N : ℕ} {r : FileResponse} {t : FileTable}
    (h : r.InFlight → t.Holds r.file) (wb : Buffer N) (wlen : ℕ)
    (reads : List PreadAnswer) (hsubmitted : r.submitted = true) :
    r.send t wb wlen reads ≠ .error .dangling := by
  unfold send
  split_ifs with hwlen hdangling
  · exact nofun
  · refine absurd (h ⟨hsubmitted, ?_⟩) hdangling.2
    have hleft : wlen ≤ r.source.length - r.source.pos := not_lt.mp hwlen
    omega
  · cases r.source.send wb wlen reads <;> exact nofun

namespace FileWorker

variable {N : ℕ} {root : StaticRoot} {w w' : FileWorker}

/-- **A report that a file is gone** leaves the files held exactly if it spares
the responses. -/
theorem held_erase_iff {k : KeptFile} (h : w.Held) :
    Held { w with table := w.table.erase k.entry.relpath }
      ↔ ∀ r ∈ w.responses, r.InFlight →
        ∀ k' ∈ w.table.kept, k'.id = r.file →
          k'.entry.relpath ≠ k.entry.relpath := by
  refine forall_congr' fun r => forall_congr' fun hr =>
    forall_congr' fun hflight => ?_
  show (w.table.erase k.entry.relpath).Holds r.file ↔ _
  rw [FileTable.holds_erase]
  constructor
  · rintro ⟨k₁, hk₁, hid, hne⟩ k' hk' hid'
    rwa [FileTable.eq_of_id_eq hk' hk₁ (hid'.trans hid.symm)]
  · intro hall
    obtain ⟨k', hk', hid⟩ := h r hr hflight
    exact ⟨k', hk', hid, hall k' hk' hid⟩

/-- **A step on which no file is lost**: every entry stays, and every response
reads from an entry that is there or from the same one as before, and was in
flight before if it is in flight now. -/
structure Goes (w w' : FileWorker) : Prop where
  keeps : ∀ id, w.table.Holds id → w'.table.Holds id
  responses : ∀ r' ∈ w'.responses, w'.table.Holds r'.file
    ∨ ∃ r ∈ w.responses, r'.file = r.file ∧ (r'.InFlight → r.InFlight)

/-- The responses are left alone. -/
theorem Goes.table {table : FileTable}
    (hkeeps : ∀ id, w.table.Holds id → table.Holds id) :
    w.Goes { w with table := table } :=
  ⟨hkeeps, fun r hr => .inr ⟨r, hr, rfl, id⟩⟩

theorem Goes.refl (w : FileWorker) : w.Goes w := .table fun _ hid => hid

/-- **What a step does**: it loses no file, or the watcher of one reports that
it is gone, and it is erased. -/
theorem step_cases {e : Step N} (h : w.step root e = .ok w') :
    w.Goes w'
      ∨ ∃ k ∈ w.table.kept, k.entry.watch = true ∧ e = .deleted k.id
        ∧ w' = { w with table := w.table.erase k.entry.relpath } := by
  unfold step at h
  cases e with
  | load disk stat name =>
    dsimp only at h
    cases hadd : w.table.add root disk stat (root.text ++ name) true with
    | error f =>
      rw [hadd] at h
      cases h
    | ok r =>
      rw [hadd] at h
      cases h
      exact .inl (.table (FileTable.keeps_add hadd).keeps)
  | lookup disk stat q =>
    dsimp only at h
    cases hget : w.table.get root disk stat q with
    | error f =>
      rw [hget] at h
      cases h
    | ok r =>
      rw [hget] at h
      cases h
      exact .inl (.table (FileTable.keeps_get hget).keeps)
  | respond disk stat q ims =>
    dsimp only at h
    cases hget : w.table.get root disk stat q with
    | error f =>
      rw [hget] at h
      cases h
    | ok r =>
      rw [hget] at h
      have hkeeps := FileTable.keeps_get hget
      obtain ⟨file, table⟩ := r
      cases file with
      | none =>
        cases h
        exact .inl (.table hkeeps.keeps)
      | some k =>
        cases h
        refine .inl ⟨fun id hid => (FileTable.holds_modify
          KeptFile.id_takeInfo k.id id).mpr (hkeeps.keeps id hid), ?_⟩
        intro r hr
        rcases List.mem_append.mp hr with hr | hr
        · exact .inr ⟨r, hr, rfl, id⟩
        · rw [List.mem_singleton.mp hr, FileTable.holds_modify]
          exact .inl (hkeeps.holds k rfl)
  | send i wb wlen reads =>
    dsimp only at h
    cases hat : w.responses[i]? with
    | none =>
      rw [hat] at h
      cases h
      exact .inl (.refl w)
    | some r =>
      rw [hat] at h
      dsimp only at h
      split_ifs at h
      · cases hsend : r.send w.table wb wlen reads with
        | error f =>
          rw [hsend] at h
          cases h
        | ok r' =>
          rw [hsend] at h
          cases h
          refine .inl ⟨fun _ hid => hid, fun r'' hr'' => .inr ?_⟩
          rcases List.mem_or_eq_of_mem_set hr'' with hr | rfl
          · exact ⟨r'', hr, rfl, id⟩
          · exact ⟨r, List.mem_of_getElem? hat, FileResponse.send_spec hsend⟩
      · cases h
        exact .inl (.refl w)
  | updated id info =>
    dsimp only at h
    cases hfind : w.table.find id with
    | none =>
      rw [hfind] at h
      cases h
      exact .inl (.refl w)
    | some k =>
      rw [hfind] at h
      dsimp only at h
      split_ifs at h
      · cases h
        exact .inl (.table fun j hj => (FileTable.holds_modify
          (KeptFile.id_updateInfo info) id j).mpr hj)
      · cases h
        exact .inl (.refl w)
  | deleted id =>
    dsimp only at h
    cases hfind : w.table.find id with
    | none =>
      rw [hfind] at h
      cases h
      exact .inl (.refl w)
    | some k =>
      rw [hfind] at h
      dsimp only at h
      split_ifs at h with hwatch
      · cases h
        obtain ⟨hk, rfl⟩ := FileTable.find_eq_some_iff.mp hfind
        exact .inr ⟨k, hk, hwatch, rfl, rfl⟩
      · cases h
        exact .inl (.refl w)
  | close i =>
    cases h
    exact .inl ⟨fun _ hid => hid, fun r hr =>
      .inr ⟨r, List.mem_of_mem_eraseIdx hr, rfl, id⟩⟩

/-- The watcher of an entry reports that its file is gone. -/
theorem step_deleted {k : KeptFile} (hk : k ∈ w.table.kept)
    (hwatch : k.entry.watch = true) :
    w.step root (.deleted k.id : Step N)
      = .ok { w with table := w.table.erase k.entry.relpath } := by
  have hfind : w.table.find k.id = some k :=
    FileTable.find_eq_some_iff.mpr ⟨hk, rfl⟩
  unfold step
  dsimp only
  rw [hfind]
  exact if_pos hwatch

/-- **Every step that spares the responses keeps their files held.** -/
theorem Held.step {e : Step N} (h : w.Held) (hspares : w.Spares e)
    (hstep : w.step root e = .ok w') : w'.Held := by
  rcases step_cases hstep with hgoes | ⟨k, hk, hwatch, rfl, rfl⟩
  · intro r' hr' hflight
    rcases hgoes.responses r' hr' with hheld | ⟨r, hr, hfile, hbefore⟩
    · exact hheld
    · rw [hfile]
      exact hgoes.keeps r.file (h r hr (hbefore hflight))
  · exact (held_erase_iff h).mpr (hspares k hk rfl hwatch)

/-- **While the files are held**, no step uses an entry that is gone. -/
theorem Held.step_ne_dangling (h : w.Held) (e : Step N) :
    w.step root e ≠ .error .dangling := by
  unfold FileWorker.step
  cases e with
  | load disk stat name =>
    dsimp only
    cases w.table.add root disk stat (root.text ++ name) true <;> exact nofun
  | lookup disk stat q =>
    dsimp only
    cases w.table.get root disk stat q <;> exact nofun
  | respond disk stat q ims =>
    dsimp only
    cases w.table.get root disk stat q with
    | error f => exact nofun
    | ok r =>
      obtain ⟨file, table⟩ := r
      cases file <;> exact nofun
  | send i wb wlen reads =>
    dsimp only
    cases hat : w.responses[i]? with
    | none => exact nofun
    | some r =>
      have hsend := FileResponse.send_ne_dangling
        (h r (List.mem_of_getElem? hat)) wb wlen reads
      dsimp only
      split_ifs with hsubmitted
      · cases hr : r.send w.table wb wlen reads with
        | error f =>
          intro heq
          cases heq
          exact hsend hsubmitted hr
        | ok r' => exact nofun
      · exact nofun
  | updated id info =>
    dsimp only
    cases w.table.find id with
    | none => exact nofun
    | some k =>
      dsimp only
      split_ifs <;> exact nofun
  | deleted id =>
    dsimp only
    cases w.table.find id with
    | none => exact nofun
    | some k =>
      dsimp only
      split_ifs <;> exact nofun
  | close i => exact nofun

/-- **The files of the responses are held throughout a run** whose reports that a
file is gone all spare the responses. -/
theorem held_of_run {steps : List (Step N)}
    (hspares : Run.Throughout (step root) Spares start steps)
    (hrun : Run.exec (step root) start steps = .ok w) : w.Held :=
  Run.invariant (fun _ _ _ hheld hspares hstep => Held.step hheld hspares hstep)
    (fun _ hr => absurd hr List.not_mem_nil) hspares hrun

/-- **The condition is exact** at every report that a file is gone. -/
theorem held_deleted_iff {id : ℕ} (h : w.Held)
    (hstep : w.step root (.deleted id : Step N) = .ok w') :
    w'.Held ↔ w.Spares (.deleted id : Step N) := by
  refine ⟨fun hheld k hk hid hwatch => ?_, fun hspares => h.step hspares hstep⟩
  rw [← hid, step_deleted hk hwatch] at hstep
  cases hstep
  exact (held_erase_iff h).mp hheld

instance (w : FileWorker) (e : Step N) : Decidable (w.Spares e) :=
  match e with
  | .deleted id => inferInstanceAs (Decidable (∀ k ∈ w.table.kept, k.id = id → _))
  | .load _ _ _ => isTrue trivial
  | .respond _ _ _ _ => isTrue trivial
  | .lookup _ _ _ => isTrue trivial
  | .send _ _ _ _ => isTrue trivial
  | .updated _ _ => isTrue trivial
  | .close _ => isTrue trivial

/-- A file of ten bytes. -/
def tenInfo : FileInfo := ⟨0, 10, by decide⟩

/-- The index is loaded, and a request is answered with it. -/
def answered : List (Step 16) :=
  [.load fullDisk (fun _ => tenInfo) (bytes "index.html"),
    .respond fullDisk (fun _ => tenInfo) ⟨bytes "/index.html", true, true, true⟩
      none]

/-- The response is sent, and then the file is reported to be gone. -/
def sent : List (Step 16) :=
  answered ++ [.send 0 (.empty 16) 10 [.data (List.replicate 10 97)], .deleted 0]

theorem sent_held :
    ∃ w, Run.Throughout (step wwwRoot) Spares start sent
      ∧ Run.exec (step wwwRoot) start sent = .ok w
      ∧ w.table.kept = [] ∧ w.Held := by
  have hspares : Run.Throughout (step wwwRoot) Spares start sent := by
    decide +kernel
  obtain ⟨w, hrun, hgone⟩ := Run.exists_of_map_exec
    (show (Run.exec (step wwwRoot) start sent).map (fun w => w.table.kept)
      = .ok [] by decide +kernel)
  exact ⟨w, hspares, hrun, hgone, held_of_run hspares hrun⟩

/-- **A file is reported to be gone** before anything of the response is sent: the
entry is erased and the response still refers to it. -/
theorem deleted_not_held :
    ¬ ∀ (root : StaticRoot) (steps : List (Step 16)) (w : FileWorker),
      Run.exec (step root) start steps = .ok w → w.Held := by
  intro h
  obtain ⟨w, hrun, hheld⟩ := Run.exists_of_map_exec
    (show (Run.exec (step wwwRoot) start (answered ++ [.deleted 0])).map
      (fun w => decide w.Held) = .ok false by decide +kernel)
  exact of_decide_eq_false hheld (h wwwRoot _ w hrun)

end FileWorker
