import Harmony.MemBlock
import Harmony.Revalidation

/-!
# What the fields of a response refer to

A response is submitted at one time, and its header is written at another, when
the connection takes it. In between the library has views of most values, not
copies of them (`set_header_nc`): of the memory of the stream, of the date that
the worker shows to everyone, and of the entry of a file. All of this goes on
being used. The stream makes more texts, the date is that of a later response,
and a file that is deleted has its entry removed.

`fields_of_run` says what is written in the end. The lengths and the dates of
files are those that were submitted, and `date` is that of the last response
of the worker, which may be a later one. The type of a file is read from its
entry, and so it can be read if and only if the entry is still there.
-/

open HttpDate

/-! ## The date of a worker -/

/-- **`DateCache`.** Nothing ever sets the time, which is the least there is. -/
structure DateCache where
  mem : Block 29
  cacheTime : Int64
  never_set : cacheTime = Int64.minValue

/-- The constructor. The text is not initialised. -/
def DateCache.start (mem : Block 29) : DateCache := ⟨mem, Int64.minValue, rfl⟩

/-- **`Worker::get_cached_date`.** -/
def DateCache.getCachedDate (c : DateCache) (now : Int64) : Except Fault DateCache :=
  if now ≥ c.cacheTime then
    match h : writeAll c.mem.val 0 ((httpDate now.toInt).getD []) with
    | .ok (mem, _) =>
      .ok { c with mem := ⟨mem, (length_writeAll h).trans c.mem.property⟩ }
    | .error e => .error e
  else .ok c

/-- **The date is always made anew**, if there is one for the time. -/
theorem DateCache.getCachedDate_ok (c : DateCache) (now : Int64) :
    ∃ c', c.getCachedDate now = .ok c'
      ∧ c'.mem.val = (httpDate now.toInt).getD c.mem.val := by
  have hlen := c.mem.property
  have hdate : ((httpDate now.toInt).getD []).length ≤ c.mem.val.length := by
    rw [hlen]
    cases h : httpDate now.toInt with
    | none => exact Nat.zero_le 29
    | some s => exact (MemBlock.length_httpDate h).le
  have hrun := PointerWriter.all_writes _ [] c.mem.val hdate
  rw [List.nil_append, List.nil_append, List.length_nil, Nat.zero_add] at hrun
  have hval : (httpDate now.toInt).getD []
      ++ c.mem.val.drop ((httpDate now.toInt).getD []).length
      = (httpDate now.toInt).getD c.mem.val := by
    cases h : httpDate now.toInt with
    | none => rfl
    | some s =>
      have hle : c.mem.val.length ≤ s.length := by
        rw [hlen, MemBlock.length_httpDate h]
      rw [Option.getD_some, Option.getD_some, List.drop_of_length_le hle,
        List.append_nil]
  rw [hval] at hrun
  generalize hout : (httpDate now.toInt).getD c.mem.val = out at hrun ⊢
  have hwrite : writeAll c.mem.val 0 ((httpDate now.toInt).getD []) = _ := hrun
  refine ⟨{ c with mem := ⟨out, (length_writeAll hwrite).trans hlen⟩ }, ?_, rfl⟩
  rw [getCachedDate, if_pos (by
    rw [c.never_set]
    exact Int64.le_iff_toInt_le.mpr now.minValue_le_toInt)]
  split
  next hwrite' => cases hwrite.symm.trans hwrite'; rfl
  next hwrite' => cases hwrite.symm.trans hwrite'

/-! ## Fields by reference -/

/-- **What the library has of a value.** -/
inductive FieldValue where
  /-- A literal, or a copy. -/
  | text (s : Bytes)
  /-- A view of the memory of the stream. -/
  | own (v : MemBlock.View)
  /-- A view of the date of the worker. -/
  | date
  /-- A view of the type in the entry of a file. -/
  | mimeType (id : ℕ)

/-- The memory that is referred to: that of the stream, the date, and the types in
the entries that the worker has. -/
structure Memory where
  own : MemBlock 512
  date : DateCache
  types : ℕ → Option Bytes

namespace Memory

/-- What is read for a value, unless the memory is gone. -/
def read (m : Memory) : FieldValue → Option Bytes
  | .text s => some s
  | .own v => some (m.own.read v)
  | .date => some m.date.mem.val
  | .mimeType id => m.types id

/-- **The header**, at the time when it is written. -/
def header (m : Memory) : List (Bytes × FieldValue) → Option (List (Bytes × Bytes))
  | [] => some []
  | (name, value) :: fields => do
    let s ← m.read value
    let rest ← m.header fields
    some ((name, s) :: rest)

/-- **What happens to the memory** in between. -/
inductive Step where
  /-- The stream makes one more text. -/
  | text (c : MemBlock.Call)
  /-- Another response of the worker has its date. -/
  | date (now : Int64)
  /-- A file was deleted, and its entry is removed. -/
  | forget (id : ℕ)

def step (m : Memory) : Step → Except Fault Memory
  | .text c => do
    let (_, own) ← m.own.put c.malloc c.text
    .ok { m with own := own }
  | .date now => do
    let date ← m.date.getCachedDate now
    .ok { m with date := date }
  | .forget id => .ok { m with types := Function.update m.types id none }

/-- The date after some steps. -/
def lastDate (date : Bytes) (steps : List Step) : Bytes :=
  steps.foldl (fun date e => match e with
    | .date now => (httpDate now.toInt).getD date
    | _ => date) date

/-- **What some steps leave.** -/
structure After (m : Memory) (steps : List Step) (m' : Memory) : Prop where
  own : m.own.Keeps m'.own
  date : m'.date.mem.val = lastDate m.date.mem.val steps
  kept : ∀ id, Step.forget id ∉ steps → m'.types id = m.types id
  forgotten : ∀ id, Step.forget id ∈ steps → m'.types id = none

theorem after_step (m : Memory) (e : Step) :
    ∃ m', m.step e = .ok m' ∧ m.After [e] m' := by
  cases e with
  | text c =>
    obtain ⟨v, own, hput, hputs⟩ := m.own.put_puts c.malloc c.text
    refine ⟨{ m with own := own }, ?_, hputs.keeps, rfl, fun _ _ => rfl,
      fun id hid => ?_⟩
    · rw [step, hput]
      rfl
    · cases List.mem_singleton.mp hid
  | date now =>
    obtain ⟨date, hget, hdate⟩ := m.date.getCachedDate_ok now
    refine ⟨{ m with date := date }, ?_, .refl _, hdate, fun _ _ => rfl,
      fun id hid => ?_⟩
    · rw [step, hget]
      rfl
    · cases List.mem_singleton.mp hid
  | forget id =>
    refine ⟨_, rfl, .refl _, rfl, fun id' hid => ?_, fun id' hid => ?_⟩
    · exact Function.update_of_ne
        (fun h => hid (List.mem_singleton.mpr (congrArg Step.forget h))) _ _
    · cases List.mem_singleton.mp hid
      exact Function.update_self _ _ _

theorem After.cons {m m₁ m' : Memory} {e : Step} {steps : List Step}
    (h : m.After [e] m₁) (h' : m₁.After steps m') : m.After (e :: steps) m' where
  own := h.own.trans h'.own
  date := by
    rw [h'.date, h.date]
    rfl
  kept id hid := by
    rw [List.mem_cons, not_or] at hid
    rw [h'.kept id hid.2, h.kept id fun h => hid.1 (List.mem_singleton.mp h)]
  forgotten id hid := by
    by_cases hrest : Step.forget id ∈ steps
    · exact h'.forgotten id hrest
    · have he := (List.mem_cons.mp hid).resolve_right hrest
      rw [h'.kept id hrest, h.forgotten id (List.mem_singleton.mpr he)]

/-- **Any steps can be taken.** -/
theorem after_exec (m : Memory) (steps : List Step) :
    ∃ m', Run.exec step m steps = .ok m' ∧ m.After steps m' := by
  induction steps generalizing m with
  | nil =>
    exact ⟨m, rfl, .refl _, rfl, fun _ _ => rfl, fun _ h => absurd h List.not_mem_nil⟩
  | cons e steps ih =>
    obtain ⟨m₁, hstep, hafter⟩ := m.after_step e
    obtain ⟨m', hexec, hafter'⟩ := ih m₁
    exact ⟨m', (Run.exec_cons_of_ok hstep steps).trans hexec, hafter.cons hafter'⟩

/-- A header in two parts. -/
theorem header_append (m : Memory) (fields fields' : List (Bytes × FieldValue)) :
    m.header (fields ++ fields') = (do
      let first ← m.header fields
      let rest ← m.header fields'
      some (first ++ rest)) := by
  induction fields with
  | nil => simp [header]
  | cons f fields ih =>
    obtain ⟨name, value⟩ := f
    rw [List.cons_append, header, ih, header]
    cases m.read value <;> cases m.header fields <;> cases m.header fields' <;> rfl

/-- Literals and copies are read as they are. -/
theorem header_text (m : Memory) (fields : List (Bytes × Bytes)) :
    m.header (fields.map fun f => (f.1, .text f.2)) = some fields := by
  induction fields with
  | nil => rfl
  | cons f fields ih =>
    rw [List.map_cons, header, ih]
    rfl

end Memory

/-! ## Responses by reference -/

/-- A response that is being submitted: its fields, and the memory. -/
structure Submission where
  fields : List (Bytes × FieldValue)
  mem : Memory

namespace Submission

/-- `set_header_nc`. -/
def setHeaderNc (s : Submission) (name : Bytes) (value : FieldValue) : Submission :=
  { s with fields := s.fields ++ [(name, value)] }

/-- The memory of the stream after something was put there. -/
def withOwn (s : Submission) (own : MemBlock 512) : Submission :=
  ⟨s.fields, ⟨own, s.mem.date, s.mem.types⟩⟩

/-- The worker's date after it was made. -/
def withDate (s : Submission) (date : DateCache) : Submission :=
  ⟨s.fields, ⟨s.mem.own, date, s.mem.types⟩⟩

/-- `set_header_nc` of `to_string`. -/
def setLength (s : Submission) (malloc : MemBlock.Malloc) (n : ℕ) :
    Except Fault Submission := do
  let (v, own) ← s.mem.own.toString malloc n
  .ok ((s.withOwn own).setHeaderNc (bytes "content-length") (.own v))

/-- `submit_string_response`. -/
def submitStringResponse (s : Submission) (malloc : MemBlock.Malloc)
    (ss : StringStream) : Except Fault Submission :=
  s.setLength malloc ss.length

/-- `submit_html_response`. -/
def submitHtmlResponse (s : Submission) (malloc : MemBlock.Malloc)
    (ss : StringStream) : Except Fault Submission :=
  (s.setHeaderNc (bytes "content-type")
    (.text (bytes "text/html; charset=utf-8"))).setLength malloc ss.length

/-- `submit_json_response`, of a string or a result. -/
def submitJsonResponse (s : Submission) (malloc : MemBlock.Malloc)
    (ss : StringStream) : Except Fault Submission :=
  (s.setHeaderNc (bytes "content-type")
    (.text (bytes "application/json"))).setLength malloc ss.length

/-- **`submit_file_response`**, of a file that was found. The encoding of a file
is a literal. -/
def submitFileResponse (s : Submission) (malloc : MemBlock.Malloc) (now : Int64)
    (id : ℕ) (file : Response.FileFacts) (ims : Option ℤ) :
    Except Fault Submission := do
  let date ← s.mem.date.getCachedDate now
  let s := s.withDate date
  if ims.any (fun lastMod => decide (file.mtime ≤ lastMod)) then
    .ok (s.setHeaderNc (bytes "date") .date)
  else
    let s ← (s.setHeaderNc (bytes "content-type") (.mimeType id)).setLength malloc
      file.length
    let s := match file.encoding with
      | some encoding => s.setHeaderNc (bytes "content-encoding") (.text encoding)
      | none => s
    let s := (s.setHeaderNc (bytes "cache-control")
      (.text (bytes "max-age=0"))).setHeaderNc (bytes "date") .date
    let (v, own) ← s.mem.own.httpDate malloc file.mtime
    .ok ((s.withOwn own).setHeaderNc (bytes "last-modified") (.own v))

/-! ## What will be read -/

/-- **What is read of the fields later**, in terms of the memory at that time. All
that is needed is that the stream keeps what it has made. -/
def Shows (s : Submission) (shown : Memory → Option (List (Bytes × Bytes))) : Prop :=
  ∀ m : Memory, s.mem.own.Keeps m.own → m.header s.fields = shown m

/-- One more field. -/
def also (shown : Memory → Option (List (Bytes × Bytes))) (name : Bytes)
    (value : Memory → Option Bytes) (m : Memory) : Option (List (Bytes × Bytes)) := do
  let fields ← shown m
  let s ← value m
  some (fields ++ [(name, s)])

variable {s : Submission} {shown : Memory → Option (List (Bytes × Bytes))}

/-- The stream goes on. -/
theorem Shows.keeps (h : s.Shows shown) {own : MemBlock 512}
    (hkeeps : s.mem.own.Keeps own) :
    (s.withOwn own).Shows shown :=
  fun m hm => h m (hkeeps.trans hm)

theorem Shows.setHeaderNc (h : s.Shows shown) (name : Bytes) (value : FieldValue)
    {val : Memory → Option Bytes}
    (hval : ∀ m : Memory, s.mem.own.Keeps m.own → m.read value = val m) :
    (s.setHeaderNc name value).Shows (also shown name val) := by
  intro m hm
  show m.header (s.fields ++ [(name, value)]) = _
  rw [Memory.header_append, h m hm, Memory.header, hval m hm, also]
  cases shown m <;> cases val m <;> rfl

/-- **A text that the stream makes** is read as it was made. -/
theorem Shows.setPut (h : s.Shows shown) (name : Bytes) {v : MemBlock.View}
    {own : MemBlock 512} {text : Bytes} (hputs : s.mem.own.Puts v own (some text)) :
    ((s.withOwn own).setHeaderNc name (.own v)).Shows
      (also shown name fun _ => some text) := by
  refine (h.keeps hputs.keeps).setHeaderNc name (.own v) fun m hm => ?_
  have hkeeps : own.Keeps m.own := hm
  show some (m.own.read v) = some text
  rw [hkeeps.read_eq hputs.within, hputs.reads text rfl]

theorem Shows.setLength (h : s.Shows shown) (malloc : MemBlock.Malloc) (n : ℕ) :
    ∃ s', s.setLength malloc n = .ok s' ∧ s'.mem.date = s.mem.date
      ∧ s'.mem.types = s.mem.types ∧ s'.Shows (also shown (bytes "content-length")
        fun _ => some (Response.lengthText n)) := by
  obtain ⟨v, own, hput, hputs⟩ := s.mem.own.toString_puts malloc n
  refine ⟨(s.withOwn own).setHeaderNc (bytes "content-length") (.own v), ?_, rfl,
    rfl, h.setPut (bytes "content-length") hputs⟩
  rw [Submission.setLength, hput]
  rfl

/-- **The fields of a file**, with the date of the later time, and with the type if
its entry is still there. -/
def fileShown (shown : Memory → Option (List (Bytes × Bytes))) (id : ℕ)
    (file : Response.FileFacts) (ims : Option ℤ) :
    Memory → Option (List (Bytes × Bytes)) :=
  if ims.any (fun lastMod => decide (file.mtime ≤ lastMod)) then
    also shown (bytes "date") fun m => some m.date.mem.val
  else
    let shown := also (also shown (bytes "content-type") fun m => m.types id)
      (bytes "content-length") fun _ => some (Response.lengthText file.length)
    let shown := match file.encoding with
      | some encoding => also shown (bytes "content-encoding") fun _ => some encoding
      | none => shown
    also (also (also shown (bytes "cache-control") fun _ => some (bytes "max-age=0"))
      (bytes "date") fun m => some m.date.mem.val) (bytes "last-modified")
        fun _ => some file.lastModified

theorem Shows.submitFileResponse (h : s.Shows shown) (malloc : MemBlock.Malloc)
    (now : Int64) (id : ℕ) (file : Response.FileFacts) (ims : Option ℤ) :
    ∃ s' old, s.submitFileResponse malloc now id file ims = .ok s'
      ∧ s'.mem.date.mem.val = (httpDate now.toInt).getD s.mem.date.mem.val
      ∧ s'.mem.types = s.mem.types
      ∧ s'.Shows (fileShown shown id
        { file with lastModified := (httpDate file.mtime).getD old } ims) := by
  obtain ⟨date, hget, hdate⟩ := s.mem.date.getCachedDate_ok now
  have hshows : (s.withDate date).Shows shown := h
  by_cases hims : ims.any (fun lastMod => decide (file.mtime ≤ lastMod)) = true
  · refine ⟨(s.withDate date).setHeaderNc (bytes "date") .date, [], ?_, hdate, rfl,
      ?_⟩
    · rw [Submission.submitFileResponse, hget, Except.ok_bind]
      dsimp only
      rw [if_pos hims]
    · rw [fileShown, if_pos hims]
      exact hshows.setHeaderNc (bytes "date") .date fun _ _ => rfl
  · obtain ⟨s₁, hlength, hdate₁, htypes₁, hshows₁⟩ := (hshows.setHeaderNc
      (bytes "content-type") (.mimeType id) fun _ _ => rfl).setLength malloc
        file.length
    -- the field for the encoding, if there is one
    obtain ⟨s₂, hs₂, hmem₂, hshows₂⟩ : ∃ s₂ : Submission,
        (match file.encoding with
          | some encoding => s₁.setHeaderNc (bytes "content-encoding") (.text encoding)
          | none => s₁) = s₂ ∧ s₂.mem = s₁.mem
        ∧ s₂.Shows (match file.encoding with
          | some encoding => also (also (also shown (bytes "content-type")
              fun m => m.types id) (bytes "content-length")
              fun _ => some (Response.lengthText file.length))
            (bytes "content-encoding") fun _ => some encoding
          | none => also (also shown (bytes "content-type") fun m => m.types id)
              (bytes "content-length")
              fun _ => some (Response.lengthText file.length)) := by
      cases file.encoding with
      | none => exact ⟨s₁, rfl, rfl, hshows₁⟩
      | some encoding =>
        exact ⟨_, rfl, rfl, hshows₁.setHeaderNc (bytes "content-encoding")
          (.text encoding) fun _ _ => rfl⟩
    have hshows₃ := (hshows₂.setHeaderNc (bytes "cache-control")
      (.text (bytes "max-age=0")) fun _ _ => rfl).setHeaderNc (bytes "date") .date
        fun _ _ => rfl
    obtain ⟨s₃, hs₃⟩ : ∃ s₃, (s₂.setHeaderNc (bytes "cache-control")
      (.text (bytes "max-age=0"))).setHeaderNc (bytes "date") .date = s₃ := ⟨_, rfl⟩
    have hmem₃ : s₃.mem = s₁.mem := by
      rw [← hs₃]
      exact hmem₂
    rw [hs₃] at hshows₃
    obtain ⟨v, own, hput, hputs⟩ := s₃.mem.own.httpDate_puts malloc file.mtime
    refine ⟨(s₃.withOwn own).setHeaderNc (bytes "last-modified") (.own v), own.read v,
      ?_, ?_, ?_, ?_⟩
    · rw [Submission.submitFileResponse, hget, Except.ok_bind]
      dsimp only
      rw [if_neg hims, hlength, Except.ok_bind, hs₂, hs₃, hput]
      rfl
    · show s₃.mem.date.mem.val = _
      rw [hmem₃, hdate₁]
      exact hdate
    · show s₃.mem.types = _
      rw [hmem₃, htypes₁]
      rfl
    · rw [fileShown, if_neg hims]
      exact hshows₃.setPut (bytes "last-modified") hputs.getD

end Submission

/-! ## The header that is written -/

/-- **A response**: of a text, of one of the three kinds, or of a file that was
found, with its entry. -/
inductive Answer where
  | string (ss : StringStream)
  | html (ss : StringStream)
  | json (ss : StringStream)
  | file (id : ℕ) (file : Response.FileFacts) (ims : Option ℤ)

namespace Answer

/-- The function that submits it. -/
def submit (s : Submission) (malloc : MemBlock.Malloc) (now : Int64) :
    Answer → Except Fault Submission
  | string ss => s.submitStringResponse malloc ss
  | html ss => s.submitHtmlResponse malloc ss
  | json ss => s.submitJsonResponse malloc ss
  | file id facts ims => s.submitFileResponse malloc now id facts ims

/-- **The same, with copies of all values**: a file has its type, and the dates that
are given here. -/
def response (r : Response) (date lastModified : Bytes) : Answer → Response
  | string ss => r.submitStringResponse ss
  | html ss => r.submitHtmlResponse ss
  | json ss => r.submitJsonResponse ss
  | file _ facts ims =>
    r.submitFileResponse { facts with date := date, lastModified := lastModified } ims

/-- When its fields are made, so is the worker's date. -/
def dated (now : Int64) : Answer → List Memory.Step
  | file _ _ _ => [.date now]
  | _ => []

/-- The entry that has the type of the file. -/
def entry : Answer → Option ℕ
  | file id facts ims =>
    if ims.any (fun lastMod => decide (facts.mtime ≤ lastMod)) then none else some id
  | _ => none

/-- The entry of a file has its type. -/
def Found (types : ℕ → Option Bytes) : Answer → Prop
  | file id facts _ => types id = some facts.mimeType
  | _ => True

/-- The time of the file, if it is one. -/
def mtime : Answer → ℤ
  | file _ facts _ => facts.mtime
  | _ => 0

/-- What is shown of the fields of a response, later. -/
def Reads (a : Answer) (fields : List (Bytes × Bytes)) (old : Bytes)
    (types : ℕ → Option Bytes)
    (shown : Memory → Option (List (Bytes × Bytes))) : Prop :=
  ∀ m : Memory, ((∀ id ∈ a.entry, m.types id = types id) →
      shown m = some (a.response ⟨none, fields, none⟩ m.date.mem.val
        ((httpDate a.mtime).getD old)).headers)
    ∧ ((∃ id ∈ a.entry, m.types id = none) → shown m = none)

/-- A response that has no entry is shown in one way. -/
theorem reads_of_entry_eq_none {a : Answer} {fields : List (Bytes × Bytes)}
    {old : Bytes} {types : ℕ → Option Bytes}
    {shown : Memory → Option (List (Bytes × Bytes))} (hentry : a.entry = none)
    (h : ∀ m, shown m = some (a.response ⟨none, fields, none⟩ m.date.mem.val
      ((httpDate a.mtime).getD old)).headers) :
    a.Reads fields old types shown := by
  intro m
  refine ⟨fun _ => h m, ?_⟩
  rintro ⟨id, hid, -⟩
  rw [hentry] at hid
  cases hid

end Answer

open Submission in
/-- The fields of a file are those that a copy would have. -/
theorem reads_fileShown {fields : List (Bytes × Bytes)} {types : ℕ → Option Bytes}
    {id : ℕ} {file : Response.FileFacts} (ims : Option ℤ) (old : Bytes)
    (hfound : types id = some file.mimeType) :
    (Answer.file id file ims).Reads fields old types
      (fileShown (fun _ => some fields) id
        { file with lastModified := (httpDate file.mtime).getD old } ims) := by
  intro m
  unfold Answer.entry Answer.response Response.submitFileResponse fileShown
  dsimp only
  by_cases hims : ims.any (fun lastMod => decide (file.mtime ≤ lastMod)) = true
  · rw [if_pos hims, if_pos hims, if_pos hims]
    refine ⟨fun _ => rfl, ?_⟩
    rintro ⟨id, hid, -⟩
    cases hid
  · rw [if_neg hims, if_neg hims, if_neg hims]
    refine ⟨fun hkept => ?_, fun hgone => ?_⟩
    · have htype := (hkept id rfl).trans hfound
      cases file.encoding <;> simp [also, htype, Answer.mtime, Response.setHeaderNc,
        Response.submitResponse]
    · obtain ⟨id', hid, hnone⟩ := hgone
      cases hid
      cases file.encoding <;> simp [also, hnone]

open Memory in
/-- **What is written of a response.** Whatever happens between the time when it is
submitted and the time when its header is written, the header is that of copied
values, with the date of the last response of the worker; unless the type of a file
is read and the entry of the file was removed in between, and then it is read from
memory that is gone. The fields that a handler has set before are literals or
copies here. -/
theorem fields_of_run (fields : List (Bytes × Bytes)) (mem : Memory)
    (malloc : MemBlock.Malloc) (now : Int64) (a : Answer) (steps : List Step)
    (hfound : a.Found mem.types) :
    ∃ s m old, a.submit ⟨fields.map fun f => (f.1, .text f.2), mem⟩ malloc now = .ok s
      ∧ Run.exec step s.mem steps = .ok m
      ∧ m.date.mem.val = lastDate mem.date.mem.val (a.dated now ++ steps)
      ∧ ((∀ id ∈ a.entry, Step.forget id ∉ steps) →
        m.header s.fields = some (a.response ⟨none, fields, none⟩ m.date.mem.val
          ((httpDate a.mtime).getD old)).headers)
      ∧ ((∃ id ∈ a.entry, Step.forget id ∈ steps) → m.header s.fields = none) := by
  have hstart : (⟨fields.map fun f => (f.1, .text f.2), mem⟩ : Submission).Shows
      fun _ => some fields := fun m _ => m.header_text fields
  -- what is submitted will be read so
  obtain ⟨s, old, shown, hsubmit, hdate, htypes, hshows, hreads⟩ :
      ∃ s old shown, a.submit ⟨fields.map fun f => (f.1, .text f.2), mem⟩ malloc now
          = .ok s
        ∧ s.mem.date.mem.val = lastDate mem.date.mem.val (a.dated now)
        ∧ s.mem.types = mem.types ∧ s.Shows shown
        ∧ a.Reads fields old mem.types shown := by
    cases a with
    | string ss =>
      obtain ⟨s, hs, hdate, htypes, hshows⟩ := hstart.setLength malloc ss.length
      exact ⟨s, [], _, hs, by rw [hdate]; rfl, htypes, hshows,
        Answer.reads_of_entry_eq_none rfl fun _ => rfl⟩
    | html ss =>
      obtain ⟨s, hs, hdate, htypes, hshows⟩ := (hstart.setHeaderNc
        (bytes "content-type") (.text (bytes "text/html; charset=utf-8"))
        fun _ _ => rfl).setLength malloc ss.length
      exact ⟨s, [], _, hs, by rw [hdate]; rfl, htypes, hshows,
        Answer.reads_of_entry_eq_none rfl fun _ => rfl⟩
    | json ss =>
      obtain ⟨s, hs, hdate, htypes, hshows⟩ := (hstart.setHeaderNc
        (bytes "content-type") (.text (bytes "application/json"))
        fun _ _ => rfl).setLength malloc ss.length
      exact ⟨s, [], _, hs, by rw [hdate]; rfl, htypes, hshows,
        Answer.reads_of_entry_eq_none rfl fun _ => rfl⟩
    | file id facts ims =>
      obtain ⟨s, old, hs, hdate, htypes, hshows⟩ :=
        hstart.submitFileResponse malloc now id facts ims
      exact ⟨s, old, _, hs, hdate, htypes, hshows, reads_fileShown ims old hfound⟩
  obtain ⟨m, hexec, hafter⟩ := s.mem.after_exec steps
  obtain ⟨hkept, hgone⟩ := hreads m
  have hshown := hshows m hafter.own
  refine ⟨s, m, old, hsubmit, hexec, ?_, fun h => ?_, ?_⟩
  · rw [hafter.date, hdate, lastDate, lastDate, lastDate, List.foldl_append]
  · rw [hshown]
    refine hkept fun id hid => ?_
    rw [hafter.kept id (h id hid), htypes]
  · rintro ⟨id, hid, hforget⟩
    rw [hshown]
    exact hgone ⟨id, hid, hafter.forgotten id hforget⟩

open Memory in
/-- A style sheet of three bytes: another response comes first, and the entry of
another file is removed. -/
theorem fields_styleSheet :
    ∃ s m, Answer.submit
        ⟨[], ⟨MemBlock.fresh ⟨List.replicate 512 0, List.length_replicate⟩,
          DateCache.start ⟨List.replicate 29 0, rfl⟩, fun _ => some (bytes "text/css")⟩⟩
        (fun n => ⟨List.replicate n 0, List.length_replicate⟩) 0
        (.file 1 ⟨3, 0, 3, by decide, bytes "text/css", none, [], []⟩ none) = .ok s
      ∧ Run.exec step s.mem [.date 86400, .forget 2] = .ok m
      ∧ m.header s.fields = some [(bytes "content-type", bytes "text/css"),
        (bytes "content-length", bytes "3"), (bytes "cache-control", bytes "max-age=0"),
        (bytes "date", bytes "Fri, 02 Jan 1970 00:00:00 GMT"),
        (bytes "last-modified", bytes "Thu, 01 Jan 1970 00:00:00 GMT")] := by
  obtain ⟨s, m, old, hsubmit, hexec, hdate, hkept, -⟩ := fields_of_run []
    ⟨MemBlock.fresh ⟨List.replicate 512 0, List.length_replicate⟩,
      DateCache.start ⟨List.replicate 29 0, rfl⟩, fun _ => some (bytes "text/css")⟩
    (fun n => ⟨List.replicate n 0, List.length_replicate⟩) 0
    (.file 1 ⟨3, 0, 3, by decide, bytes "text/css", none, [], []⟩ none)
    [.date 86400, .forget 2] rfl
  have hlast : lastDate (List.replicate 29 0) [.date 0, .date 86400, .forget 2]
      = bytes "Fri, 02 Jan 1970 00:00:00 GMT" := by decide +kernel
  have hmtime : httpDate 0 = some (bytes "Thu, 01 Jan 1970 00:00:00 GMT") := by
    decide +kernel
  refine ⟨s, m, hsubmit, hexec, ?_⟩
  have hdate' : m.date.mem.val = _ := hdate.trans hlast
  rw [hkept (by simp [Answer.entry]), hdate', Answer.response]
  dsimp only [Answer.mtime]
  rw [hmtime, Option.getD_some]
  decide +kernel
