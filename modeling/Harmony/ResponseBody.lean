import Harmony.DataStream

/-!
# Bodies of responses

The body of a response is a string or a file. Flow control decides how it is
cut: for every frame `data_read_cb` is told a limit, answers with a size and
with whether the body ends there, and `send` later writes exactly that much.
The position is moved by `send` alone, so the end of the body is announced
before the last bytes of it are out.

`cut` is how a body should be cut: at every limit, up to the first frame that
takes all that is left. `serve_eq_cut` says that the callbacks do this, for
both kinds of source and however the file is read; `isBodyOf_cut` says what it
means: no frame exceeds its limit, the last frame and no other is marked as the
end, and together they are the body, whose length is in the `content-length`
header (`body_delivered`).
-/

/-! ## Responses -/

/-- **A response**: its status if one was set, its headers, its body. -/
structure Response where
  status : Option Bytes
  headers : List (Bytes × Bytes)
  body : Option DataStream

namespace Response

/-- `set_header_nc`. -/
def setHeaderNc (r : Response) (name value : Bytes) : Response :=
  { r with headers := r.headers ++ [(name, value)] }

/-- `Stream::submit_response`: the status is 200 if none was set. -/
def submitResponse (r : Response) (dataStream : Option DataStream) : Response :=
  { r with
    status := some (r.status.getD (bytes "200"))
    body := dataStream }

/-- The text of a length, as `to_string` writes it. -/
def lengthText (n : ℕ) : Bytes := bytes (Nat.repr n)

/-- `Stream::submit_string_response`. -/
def submitStringResponse (r : Response) (ss : StringStream) : Response :=
  (r.setHeaderNc (bytes "content-length") (lengthText ss.length)).submitResponse
    (some (.string ss))

/-- `Stream::submit_html_response`. -/
def submitHtmlResponse (r : Response) (ss : StringStream) : Response :=
  ((r.setHeaderNc (bytes "content-type")
    (bytes "text/html; charset=utf-8")).setHeaderNc (bytes "content-length")
      (lengthText ss.length)).submitResponse (some (.string ss))

/-- `Stream::submit_json_response`, of a string or a result. -/
def submitJsonResponse (r : Response) (ss : StringStream) : Response :=
  ((r.setHeaderNc (bytes "content-type")
    (bytes "application/json")).setHeaderNc (bytes "content-length")
      (lengthText ss.length)).submitResponse (some (.string ss))

/-- What a file response reads off the open file and the clock. -/
structure FileFacts where
  fd : ℕ
  mtime : ℤ
  length : ℕ
  fits : length < 2 ^ 64
  mimeType : Bytes
  /-- The encoding of a compressed file. -/
  encoding : Option Bytes
  date : Bytes
  lastModified : Bytes

/-- The source of a file that has just been opened. -/
def FileFacts.stream (file : FileFacts) : FileStream :=
  ⟨file.fd, file.length, 0, Nat.zero_le _, file.fits⟩

/-- **`Stream::submit_file_response`**, of a file that was found; `ims` is the
date of an `if-modified-since` header. -/
def submitFileResponse (r : Response) (file : FileFacts) (ims : Option ℤ) :
    Response :=
  if ims.any (fun lastMod => decide (file.mtime ≤ lastMod)) then
    { r.setHeaderNc (bytes "date") file.date with
      status := some (bytes "304") }.submitResponse none
  else
    let r := (r.setHeaderNc (bytes "content-type") file.mimeType).setHeaderNc
      (bytes "content-length") (lengthText file.length)
    let r := match file.encoding with
      | some encoding => r.setHeaderNc (bytes "content-encoding") encoding
      | none => r
    -- for development, files might change
    (((r.setHeaderNc (bytes "cache-control") (bytes "max-age=0")).setHeaderNc
      (bytes "date") file.date).setHeaderNc (bytes "last-modified")
        file.lastModified).submitResponse (some (.file file.stream))

end Response

/-! ## Serving a body -/

/-- **One frame's turn**: the limit `data_read_cb` is told, whether the request
has ended, the write buffer as it stands when the frame is sent, and what the
`pread`s answer. -/
structure BodyTurn (N : ℕ) where
  limit : ℕ
  remoteClosed : Bool
  wb : Buffer N
  reads : List PreadAnswer

/-- **A frame of a body**: its payload, and whether it is marked as the
end. -/
structure BodyFrame where
  payload : Bytes
  eof : Bool
  deriving DecidableEq, Repr

/-- **The callbacks in turn**, up to the end of the body: `data_read_cb`, and
the `send` of what it answered. There is nothing if a call does not succeed. -/
def serve {N : ℕ} : List (BodyTurn N) → DataStream →
    Option (List BodyFrame × DataStream)
  | [], ds => some ([], ds)
  | t :: ts, ds =>
    match dataReadCb ds t.limit t.remoteClosed with
    | (.deferred, _) => none
    | (.frame nread eof _, ds) =>
      match ds.send t.reads t.wb nread with
      | .returned .ok ds wb =>
        let frame : BodyFrame := ⟨wb.unread.drop t.wb.unread.length, eof⟩
        if eof then some ([frame], ds)
        else (serve ts ds).map fun r => (frame :: r.1, r.2)
      | _ => none

/-! ## What should come out -/

/-- **How a body is cut** by the limits of its frames. -/
def cut : Bytes → List ℕ → List BodyFrame
  | _, [] => []
  | content, limit :: limits =>
    if content.length ≤ limit then [⟨content, true⟩]
    else ⟨content.take limit, false⟩ :: cut (content.drop limit) limits

/-- **The frames of a body**, for a sequence of limits. -/
structure IsBodyOf (content : Bytes) (limits : List ℕ)
    (frames : List BodyFrame) : Prop where
  /-- No frame exceeds its limit. -/
  within : List.Forall₂ (fun f limit => f.payload.length ≤ limit) frames
    (limits.take frames.length)
  /-- Only the last frame may be marked as the end. -/
  before : ∀ f ∈ frames.dropLast, f.eof = false
  /-- If it is, the frames are the body. -/
  ended : (∃ f ∈ frames, f.eof = true) →
    (frames.map BodyFrame.payload).flatten = content
  /-- It is as soon as the limits allow for it. -/
  ends : (∃ f ∈ frames, f.eof = true)
    ↔ limits ≠ [] ∧ content.length ≤ limits.sum
  /-- Until then the frames are the beginning of it. -/
  underway : limits.sum < content.length →
    frames.length = limits.length
    ∧ (frames.map BodyFrame.payload).flatten = content.take limits.sum
  /-- An empty body is one empty frame. -/
  empty : content = [] → limits ≠ [] → frames = [⟨[], true⟩]

/-- The whole body in one frame. -/
theorem isBodyOf_last {content : Bytes} {limit : ℕ} (limits : List ℕ)
    (h : content.length ≤ limit) :
    IsBodyOf content (limit :: limits) [⟨content, true⟩] where
  within := List.Forall₂.cons h List.Forall₂.nil
  before := fun f hf => absurd hf List.not_mem_nil
  ended := fun _ => List.append_nil content
  ends := by
    refine iff_of_true ⟨_, List.mem_singleton_self _, rfl⟩ ⟨?_, ?_⟩
    · exact List.cons_ne_nil _ _
    · rw [List.sum_cons]
      omega
  underway := by
    rw [List.sum_cons]
    intro hlt
    omega
  empty := fun hnil _ => by rw [hnil]

/-- A frame that takes its limit, and the frames of the rest. -/
theorem IsBodyOf.cons {content : Bytes} {limit : ℕ} {limits : List ℕ}
    {frames : List BodyFrame} (hlt : limit < content.length)
    (h : IsBodyOf (content.drop limit) limits frames) :
    IsBodyOf content (limit :: limits)
      (⟨content.take limit, false⟩ :: frames) where
  within := List.Forall₂.cons (List.length_take_le _ _) h.within
  before := by
    intro f hf
    cases frames with
    | nil => exact absurd hf List.not_mem_nil
    | cons f' frames =>
      rw [List.dropLast_cons_cons] at hf
      rcases List.mem_cons.mp hf with rfl | hf
      · rfl
      · exact h.before f hf
  ended := by
    rintro ⟨f, hf, heof⟩
    have hrest : ∃ f ∈ frames, f.eof = true := by
      rcases List.mem_cons.mp hf with rfl | hf
      · exact absurd heof Bool.false_ne_true
      · exact ⟨f, hf, heof⟩
    rw [List.map_cons, List.flatten_cons, h.ended hrest]
    exact List.take_append_drop limit content
  ends := by
    have hlen := List.length_drop (i := limit) (l := content)
    constructor
    · rintro ⟨f, hf, heof⟩
      rcases List.mem_cons.mp hf with rfl | hf
      · exact absurd heof Bool.false_ne_true
      · obtain ⟨-, hsum⟩ := h.ends.mp ⟨f, hf, heof⟩
        refine ⟨List.cons_ne_nil _ _, ?_⟩
        rw [List.sum_cons]
        omega
    · rintro ⟨-, hsum⟩
      rw [List.sum_cons] at hsum
      have hne : limits ≠ [] := by
        rintro rfl
        rw [List.sum_nil] at hsum
        omega
      obtain ⟨f, hf, heof⟩ := h.ends.mpr ⟨hne, by omega⟩
      exact ⟨f, List.mem_cons_of_mem _ hf, heof⟩
  underway := by
    intro hsum
    rw [List.sum_cons] at hsum ⊢
    obtain ⟨hlength, hconcat⟩ := h.underway (by
      rw [List.length_drop]
      omega)
    refine ⟨congrArg (· + 1) hlength, ?_⟩
    rw [List.map_cons, List.flatten_cons, hconcat, List.take_add]
  empty := by
    rintro rfl
    exact absurd hlt (Nat.not_lt_zero limit)

/-- **A body is cut into its frames.** -/
theorem isBodyOf_cut (content : Bytes) (limits : List ℕ) :
    IsBodyOf content limits (cut content limits) := by
  induction limits generalizing content with
  | nil =>
    exact {
      within := List.Forall₂.nil
      before := fun f hf => absurd hf List.not_mem_nil
      ended := fun ⟨f, hf, _⟩ => absurd hf List.not_mem_nil
      ends := iff_of_false (fun ⟨f, hf, _⟩ => List.not_mem_nil hf)
        fun h => h.1 rfl
      underway := fun _ => ⟨rfl, rfl⟩
      empty := fun _ hne => absurd rfl hne }
  | cons limit limits ih =>
    rw [cut]
    split_ifs with hle
    · exact isBodyOf_last limits hle
    · exact (ih _).cons (Nat.not_le.mp hle)

/-! ## What comes out -/

/-- **The reads deliver** the next bytes of a file, in pieces that are not
empty: `n` bytes of what is left of it. -/
def ReadsDeliver : Bytes → ℕ → List PreadAnswer → Prop
  | _, 0, _ => True
  | _, _ + 1, [] => False
  | content, n + 1, .interrupted :: reads => ReadsDeliver content (n + 1) reads
  | _, _ + 1, .failed :: _ => False
  | content, n + 1, .data bs :: reads =>
    bs ≠ [] ∧ bs.length ≤ n + 1 ∧ bs <+: content
      ∧ ReadsDeliver (content.drop bs.length) (n + 1 - bs.length) reads

/-- What a source has still to send. -/
def DataStream.Holds : DataStream → Bytes → Prop
  | .string s, content => s.data.drop s.offset = content
  | .file s, content => s.length - s.pos = content.length
  | .event _, _ => False

/-- Whether the reads, for a file, deliver a frame's payload. -/
def DataStream.Readable : DataStream → Bytes → ℕ → List PreadAnswer → Prop
  | .file _, content, n, reads => ReadsDeliver content n reads
  | _, _, _, _ => True

/-- **A string sends** the next bytes of it. -/
theorem StringStream.send_slice {N : ℕ} (s : StringStream) (wb : Buffer N)
    {n : ℕ} (hleft : s.offset + n ≤ s.data.length) (hroom : n ≤ wb.wleft) :
    ∃ s' wb', s.send wb n = .returned .ok s' wb'
      ∧ wb.Appends wb' (slice s.data s.offset n)
      ∧ s'.data = s.data ∧ s'.offset = s.offset + n := by
  have hlen : (slice s.data s.offset n).length = n := length_slice hleft
  rw [← hlen] at hroom
  obtain ⟨wb', hwrite, happ⟩ := wb.writeFull_of_le hroom
  refine ⟨⟨s.data, s.offset + n, hleft, s.fits⟩, wb', ?_, happ, rfl, rfl⟩
  rw [StringStream.send, dif_pos hleft, hwrite]

/-- **A file sends** the next bytes of it, however they are read. -/
theorem FileStream.sendLoop_delivers {N : ℕ} {reads : List PreadAnswer}
    {s : FileStream} {wb : Buffer N} {content : Bytes} {n : ℕ}
    (hreads : ReadsDeliver content n reads) (hleft : s.pos + n ≤ s.length)
    (hroom : n ≤ wb.wleft) :
    ∃ s' wb', s.sendLoop wb n reads = .returned .ok s' wb'
      ∧ wb.Appends wb' (content.take n)
      ∧ s'.length = s.length ∧ s'.pos = s.pos + n := by
  induction reads generalizing s wb content n with
  | nil =>
    cases n with
    | zero => exact ⟨s, wb, rfl, .refl wb, rfl, rfl⟩
    | succ n => exact absurd hreads id
  | cons a reads ih =>
    cases n with
    | zero => exact ⟨s, wb, rfl, .refl wb, rfl, rfl⟩
    | succ n =>
      cases a with
      | interrupted => exact ih hreads hleft hroom
      | failed => exact absurd hreads id
      | data bs =>
        obtain ⟨hne, hle, hprefix, hrest⟩ := hreads
        obtain ⟨s₁, wb₁, hstep, happ, hlength, hpos⟩ :=
          FileStream.sendLoop_data bs hroom hleft
        rw [List.take_of_length_le hle] at happ hpos
        have hwleft := happ.wleft_eq
        have hroom₁ : n + 1 - bs.length ≤ wb₁.wleft := by omega
        have hleft₁ : s₁.pos + (n + 1 - bs.length) ≤ s₁.length := by omega
        obtain ⟨s', wb', hsend, happ', hlength', hpos'⟩ :=
          ih hrest hleft₁ hroom₁
        refine ⟨s', wb', (hstep reads).trans hsend, ?_,
          hlength'.trans hlength, by omega⟩
        have hjoin : bs ++ (content.drop bs.length).take (n + 1 - bs.length)
            = content.take (n + 1) := by
          obtain ⟨rest, rfl⟩ := hprefix
          rw [List.drop_left, List.take_append, List.take_of_length_le hle]
        rw [← hjoin]
        exact happ.trans happ'

/-- **A source sends** the next bytes of what it holds. -/
theorem DataStream.send_holds {N : ℕ} {ds : DataStream} {content : Bytes}
    {reads : List PreadAnswer} {wb : Buffer N} {n : ℕ}
    (hholds : ds.Holds content) (hn : n ≤ content.length)
    (hreads : ds.Readable content n reads) (hroom : n ≤ wb.wleft) :
    ∃ ds' wb', ds.send reads wb n = .returned .ok ds' wb'
      ∧ wb.Appends wb' (content.take n) ∧ ds'.Holds (content.drop n)
      ∧ ∀ content' n' reads', ds'.Readable content' n' reads'
        ↔ ds.Readable content' n' reads' := by
  cases ds with
  | event s => exact absurd hholds id
  | string s =>
    have hlen : content.length = s.data.length - s.offset := by
      rw [← hholds, List.length_drop]
    have hle := s.offset_le
    obtain ⟨s', wb', hsend, happ, hdata, hoffset⟩ :=
      s.send_slice wb (n := n) (by omega) hroom
    refine ⟨.string s', wb', ?_, ?_, ?_, fun _ _ _ => Iff.rfl⟩
    · rw [DataStream.send, hsend]
      rfl
    · rw [← hholds]
      exact happ
    · show s'.data.drop s'.offset = content.drop n
      rw [hdata, hoffset, ← hholds, List.drop_drop]
  | file s =>
    have hlen : s.length - s.pos = content.length := hholds
    have hle := s.pos_le
    obtain ⟨s', wb', hsend, happ, hlength, hpos⟩ :=
      FileStream.sendLoop_delivers (s := s) hreads (by omega) hroom
    refine ⟨.file s', wb', ?_, happ, ?_, fun _ _ _ => Iff.rfl⟩
    · have hleft : n ≤ s.remaining.1 := hn.trans hlen.ge
      rw [DataStream.send, FileStream.send, if_pos hleft, hsend]
      rfl
    · show s'.length - s'.pos = (content.drop n).length
      rw [hlength, hpos, List.length_drop]
      omega

/-- **What `data_read_cb` answers** for a string or a file: as much as the limit
allows for, and the end if that is all. -/
theorem dataReadCb_of_holds {ds : DataStream} {content : Bytes}
    (hholds : ds.Holds content) {limit : ℕ} (hlimit : 1 ≤ limit)
    (remoteClosed : Bool) :
    ∃ rst, dataReadCb ds limit remoteClosed
      = (.frame (min content.length limit) (decide (content.length ≤ limit)) rst,
        ds) := by
  have hremaining : ds.remaining = ((content.length, true), ds) := by
    cases ds with
    | event s => exact absurd hholds id
    | string s =>
      rw [← hholds, List.length_drop]
      rfl
    | file s =>
      have hlen : s.length - s.pos = content.length := hholds
      rw [← hlen]
      rfl
  have heof : (decide (min content.length limit = 0)
      || decide (content.length = min content.length limit))
      = decide (content.length ≤ limit) := by
    rw [← Bool.decide_or]
    exact decide_eq_decide.mpr ⟨fun h => by omega, fun h => by omega⟩
  unfold dataReadCb
  rw [hremaining]
  simp only [Bool.not_true, Bool.and_false, Bool.false_eq_true, if_false,
    Bool.true_and, heof]
  exact ⟨_, rfl⟩

/-- **The turns of a body**: every limit is at least one, there is room for what
is written, and a file can be read. -/
def Turns {N : ℕ} (readable : Bytes → ℕ → List PreadAnswer → Prop) :
    Bytes → List (BodyTurn N) → Prop
  | _, [] => True
  | content, t :: ts =>
    1 ≤ t.limit ∧ min content.length t.limit ≤ t.wb.wleft
      ∧ readable content (min content.length t.limit) t.reads
      ∧ Turns readable (content.drop t.limit) ts

/-- **The callbacks cut the body as they should.** -/
theorem serve_eq_cut {N : ℕ} {readable : Bytes → ℕ → List PreadAnswer → Prop}
    {ts : List (BodyTurn N)} {ds : DataStream} {content : Bytes}
    (hholds : ds.Holds content)
    (hreadable : ∀ content n reads,
      ds.Readable content n reads ↔ readable content n reads)
    (hturns : Turns readable content ts) :
    ∃ ds', serve ts ds = some (cut content (ts.map BodyTurn.limit), ds') := by
  induction ts generalizing ds content with
  | nil => exact ⟨ds, rfl⟩
  | cons t ts ih =>
    obtain ⟨hlimit, hroom, hreads, hrest⟩ := hturns
    obtain ⟨rst, hread⟩ := dataReadCb_of_holds hholds hlimit t.remoteClosed
    obtain ⟨ds', wb', hsend, happ, hholds', hreadable'⟩ :=
      DataStream.send_holds hholds (min_le_left content.length t.limit)
        ((hreadable _ _ _).mpr hreads) hroom
    have hpayload : wb'.unread.drop t.wb.unread.length
        = content.take (min content.length t.limit) := by
      rw [happ.unread_eq, List.drop_left]
    rw [serve, hread]
    dsimp only
    rw [hsend]
    dsimp only
    rw [hpayload, List.map_cons, cut]
    by_cases hle : content.length ≤ t.limit
    · rw [if_pos (decide_eq_true hle), if_pos hle, decide_eq_true hle,
        min_eq_left hle, List.take_length]
      exact ⟨ds', rfl⟩
    · have hlt : min content.length t.limit = t.limit :=
        min_eq_right (Nat.le_of_not_le hle)
      rw [hlt] at hholds'
      obtain ⟨ds'', hserve⟩ := ih hholds'
        (fun c n r => (hreadable' c n r).trans (hreadable c n r)) hrest
      rw [if_neg fun h => hle (of_decide_eq_true h), if_neg hle, hserve, hlt,
        decide_eq_false hle]
      exact ⟨ds'', rfl⟩

namespace Response

/-- **The responses with a body**: what they were submitted with, and what the
body is. A file holds at least as much as its length says. -/
inductive Submitted : Response → DataStream → Bytes → Prop where
  | string (r : Response) (content : Bytes) (fits : content.length < 2 ^ 64) :
    Submitted (r.submitStringResponse (.ofString content fits))
      (.string (.ofString content fits)) content
  | html (r : Response) (content : Bytes) (fits : content.length < 2 ^ 64) :
    Submitted (r.submitHtmlResponse (.ofString content fits))
      (.string (.ofString content fits)) content
  | json (r : Response) (content : Bytes) (fits : content.length < 2 ^ 64) :
    Submitted (r.submitJsonResponse (.ofString content fits))
      (.string (.ofString content fits)) content
  | file (r : Response) (file : FileFacts) (ims : Option ℤ) (content : Bytes)
    (length : content.length = file.length)
    (modified : ims.any (fun lastMod => decide (file.mtime ≤ lastMod)) = false) :
    Submitted (r.submitFileResponse file ims) (.file file.stream) content

/-- A response has the length of its body in its headers. -/
theorem Submitted.headers {r : Response} {ds : DataStream} {content : Bytes}
    (h : r.Submitted ds content) :
    r.body = some ds ∧ ds.Holds content
      ∧ (bytes "content-length", lengthText content.length) ∈ r.headers := by
  cases h with
  | string r content fits =>
    refine ⟨rfl, rfl, ?_⟩
    exact List.mem_append_right _ List.mem_cons_self
  | html r content fits =>
    refine ⟨rfl, rfl, ?_⟩
    exact List.mem_append_right _ List.mem_cons_self
  | json r content fits =>
    refine ⟨rfl, rfl, ?_⟩
    exact List.mem_append_right _ List.mem_cons_self
  | file r file ims content length modified =>
    unfold submitFileResponse
    rw [if_neg (ne_true_of_eq_false modified), length]
    cases file.encoding <;>
    · refine ⟨rfl, length.symm, ?_⟩
      simp only [submitResponse, setHeaderNc, List.mem_append,
        List.mem_singleton, true_or, or_true]

end Response
