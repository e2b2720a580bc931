import Harmony.EventStream

/-!
# Data sources, and the frames made of them

The body of a response comes from a data source: a string, a file, or a stream
of events. nghttp2 asks twice for every DATA frame: `data_read_cb` says how
much the source has for it, and `send_data_cb` puts the frame into the write
buffer of the session – nine bytes of header, the padding if there is any, and
the payload, which the source writes by itself (`send`).

If there is no room for the frame, `send_data_cb` says `WOULDBLOCK` before it
has written anything, and nghttp2 asks again later. A file is read only once
the header is in the buffer: if that fails, an error is returned and the header
stays, with whatever had been read. The peer takes the next frames for the
rest of this one. `sendDataCb_intact_iff` says that this is the only way for a
call that fails to leave something behind.
-/

/-! ## What a call returns -/

/-- The return code of `send` and `send_data_cb`. -/
inductive SendCode where
  /-- Zero. -/
  | ok
  /-- `NGHTTP2_ERR_WOULDBLOCK`. -/
  | wouldBlock
  /-- `NGHTTP2_ERR_TEMPORAL_CALLBACK_FAILURE`. -/
  | temporalCallbackFailure
  deriving DecidableEq, Repr

/-- **How a call of `send` or `send_data_cb` ends.** -/
inductive Sent (σ : Type) (N : ℕ) where
  /-- It returns, with the source and the buffer it leaves. -/
  | returned (code : SendCode) (source : σ) (wb : Buffer N)
  /-- It does not return normally. -/
  | fault (f : Fault)
  /-- It is still waiting for the file. -/
  | unfinished

/-- What follows a call that returned zero. -/
def Sent.bindOk {σ : Type} {N : ℕ} (r : Sent σ N)
    (next : σ → Buffer N → Sent σ N) : Sent σ N :=
  match r with
  | .returned .ok source wb => next source wb
  | .returned code source wb => .returned code source wb
  | .fault f => .fault f
  | .unfinished => .unfinished

/-! ## Strings -/

/-- **A string to be sent**, and how much of it is out. -/
structure StringStream where
  data : Bytes
  /-- `last_ - beg_`. -/
  offset : ℕ
  offset_le : offset ≤ data.length
  fits : data.length < 2 ^ 64

namespace StringStream

/-- The stream a response starts with. -/
def ofString (data : Bytes) (fits : data.length < 2 ^ 64) : StringStream :=
  ⟨data, 0, Nat.zero_le _, fits⟩

/-- `length`. -/
def length (s : StringStream) : ℕ := s.data.length

/-- `remaining`. -/
def remaining (s : StringStream) : ℕ × Bool := (s.data.length - s.offset, true)

/-- **`StringStream::send`.** -/
def send {N : ℕ} (s : StringStream) (wb : Buffer N) (length : ℕ) :
    Sent StringStream N :=
  if h : s.offset + length ≤ s.data.length then
    match wb.writeFull (slice s.data s.offset length) with
    | .error f => .fault f
    | .ok wb => .returned .ok ⟨s.data, s.offset + length, h, s.fits⟩ wb
  else .fault .assertion

end StringStream

/-! ## Files -/

/-- What a `pread` answers. -/
inductive PreadAnswer where
  /-- These bytes, as far as they were asked for. -/
  | data (bs : Bytes)
  /-- `EINTR`. -/
  | interrupted
  /-- Another error. -/
  | failed
  deriving DecidableEq, Repr

/-- **A file to be sent**: its length as it was when the response was
submitted, and how much of it is out. -/
structure FileStream where
  fd : ℕ
  length : ℕ
  pos : ℕ
  pos_le : pos ≤ length
  fits : length < 2 ^ 64

namespace FileStream

/-- `remaining`. -/
def remaining (s : FileStream) : ℕ × Bool := (s.length - s.pos, true)

/-- The loop of `FileStream::send`, on what the `pread`s answer: it reads to
the write position, advances by what was read, and goes on until nothing is
left to be read. -/
def sendLoop {N : ℕ} (s : FileStream) (wb : Buffer N) :
    ℕ → List PreadAnswer → Sent FileStream N
  | 0, _ => .returned .ok s wb
  | _ + 1, [] => .unfinished
  | wlen + 1, .interrupted :: reads => s.sendLoop wb (wlen + 1) reads
  | _ + 1, .failed :: _ => .returned .temporalCallbackFailure s wb
  | wlen + 1, .data bs :: reads =>
    let bs := bs.take (wlen + 1)
    match wb.readInto bs with
    | .error f => .fault f
    | .ok wb =>
      -- always so, since no more is read than is left
      if h : s.pos + bs.length ≤ s.length then
        sendLoop { s with pos := s.pos + bs.length, pos_le := h } wb
          (wlen + 1 - bs.length) reads
      else .fault .assertion

/-- **`FileStream::send`.** -/
def send {N : ℕ} (s : FileStream) (wb : Buffer N) (wlen : ℕ)
    (reads : List PreadAnswer) : Sent FileStream N :=
  if wlen ≤ s.remaining.1 then s.sendLoop wb wlen reads else .fault .assertion

end FileStream

/-! ## Sources -/

/-- **A data source.** -/
inductive DataStream where
  | string (s : StringStream)
  | file (s : FileStream)
  | event (s : EventStream)

/-- The source of a call that has ended. -/
def Sent.mapSource {σ τ : Type} {N : ℕ} (f : σ → τ) : Sent σ N → Sent τ N
  | .returned code source wb => .returned code (f source) wb
  | .fault e => .fault e
  | .unfinished => .unfinished

namespace DataStream

/-- `remaining`: how much there is, and whether the source ends behind it. For
a stream of events the call notes that it ran dry. -/
def remaining : DataStream → (ℕ × Bool) × DataStream
  | .string s => (s.remaining, .string s)
  | .file s => (s.remaining, .file s)
  | .event s => (s.remaining.1, .event s.remaining.2)

/-- `send`. -/
def send {N : ℕ} (reads : List PreadAnswer) (wb : Buffer N) (length : ℕ) :
    DataStream → Sent DataStream N
  | .string s => (s.send wb length).mapSource .string
  | .file s => (s.send wb length reads).mapSource .file
  | .event s =>
    match s.send wb length with
    | .error f => .fault f
    | .ok (s, wb) => .returned .ok (.event s) wb

end DataStream

/-! ## The callbacks -/

/-- **What `data_read_cb` answers.** -/
inductive ReadAnswer where
  /-- `NGHTTP2_ERR_DEFERRED`. -/
  | deferred
  /-- A frame of a length; whether it is the last one, and whether the stream
  is reset behind it, the request not having ended. The payload is not
  copied. -/
  | frame (nread : ℕ) (eof rst : Bool)
  deriving DecidableEq, Repr

/-- **`HttpSession::data_read_cb`.** -/
def dataReadCb (ds : DataStream) (length : ℕ) (remoteClosed : Bool) :
    ReadAnswer × DataStream :=
  let ((left, shouldClose), ds) := ds.remaining
  if left ≤ 0 && !shouldClose then (.deferred, ds)
  else
    let nread := min left length
    let eof := shouldClose && (nread = 0 || left = nread)
    (.frame nread eof (eof && !remoteClosed), ds)

/-- **A DATA frame** as nghttp2 hands it over. -/
structure OutgoingFrame where
  /-- The serialised header. -/
  framehd : Bytes
  framehd_length : framehd.length = 9
  /-- The length of the payload. -/
  length : ℕ
  /-- How much padding there is, the byte that says so included. -/
  padlen : ℕ

/-- How much room a frame takes. -/
def OutgoingFrame.size (f : OutgoingFrame) : ℕ := 9 + f.length + f.padlen

/-- A step of `send_data_cb` that may fault. -/
def Sent.ofExcept {σ : Type} {N : ℕ} (source : σ) :
    Except Fault (Buffer N) → Sent σ N
  | .error f => .fault f
  | .ok wb => .returned .ok source wb

/-- **`HttpSession::send_data_cb`**, for any source with its `send`. -/
def sendDataCb {σ : Type} {N : ℕ} (send : Buffer N → ℕ → σ → Sent σ N)
    (wb : Buffer N) (f : OutgoingFrame) (source : σ) : Sent σ N :=
  if wb.wleft < f.size then .returned .wouldBlock source wb
  else
    (Sent.ofExcept source (wb.writeFull f.framehd)).bindOk fun source wb =>
    (Sent.ofExcept source (if f.padlen ≠ 0
        then wb.writeByte (f.padlen - 1).toUInt8 else .ok wb)).bindOk
      fun source wb =>
    (send wb f.length source).bindOk fun source wb =>
    Sent.ofExcept source (if f.padlen ≠ 0
      then wb.fill 0 (f.padlen - 1) else .ok wb)

/-! ## A call that fails -/

/-- **A call that fails leaves the buffer as it was.** -/
def Sent.FailsIntact {σ : Type} {N : ℕ} (r : Sent σ N) (wb : Buffer N) : Prop :=
  ∀ code source wb', r = .returned code source wb' → code ≠ .ok → wb' = wb

/-- **A read fails**: a `pread` does before `wlen` bytes have been read. -/
def readFails : ℕ → List PreadAnswer → Bool
  | 0, _ => false
  | _ + 1, [] => false
  | wlen + 1, .interrupted :: reads => readFails (wlen + 1) reads
  | _ + 1, .failed :: _ => true
  | wlen + 1, .data bs :: reads => readFails (wlen + 1 - bs.length) reads

namespace FileStream

variable {N : ℕ}

/-- What one read leaves to be read. -/
theorem sub_length_take (wlen : ℕ) (bs : Bytes) :
    wlen - (bs.take wlen).length = wlen - bs.length := by
  rw [List.length_take]
  omega

/-- A read that asks for no more than there is room and file for. -/
theorem sendLoop_data {s : FileStream} {wb : Buffer N} {wlen : ℕ} (bs : Bytes)
    (hroom : wlen + 1 ≤ wb.wleft) (hleft : s.pos + (wlen + 1) ≤ s.length) :
    ∃ (s' : FileStream) (wb' : Buffer N),
      (∀ reads, s.sendLoop wb (wlen + 1) (.data bs :: reads)
        = s'.sendLoop wb' (wlen + 1 - bs.length) reads)
      ∧ wb.Appends wb' (bs.take (wlen + 1))
      ∧ s'.length = s.length
      ∧ s'.pos = s.pos + (bs.take (wlen + 1)).length := by
  have hlen : (bs.take (wlen + 1)).length ≤ wlen + 1 :=
    List.length_take_le _ _
  obtain ⟨wb', hread, happ⟩ := wb.readInto_of_le (hlen.trans hroom)
  refine ⟨⟨s.fd, s.length, s.pos + (bs.take (wlen + 1)).length, by omega,
    s.fits⟩, wb', fun reads => ?_, happ, rfl, rfl⟩
  rw [sendLoop, hread]
  dsimp only
  rw [dif_pos (by omega), sub_length_take]

/-- **If a read fails, what was read stays in the buffer.** -/
theorem sendLoop_of_fails {reads : List PreadAnswer} {s : FileStream}
    {wb : Buffer N} {wlen : ℕ} (hfails : readFails wlen reads = true)
    (hroom : wlen ≤ wb.wleft) (hleft : s.pos + wlen ≤ s.length) :
    ∃ s' wb' src, s.sendLoop wb wlen reads
        = .returned .temporalCallbackFailure s' wb'
      ∧ wb.Appends wb' src := by
  induction reads generalizing s wb wlen with
  | nil => cases wlen <;> cases hfails
  | cons a reads ih =>
    cases wlen with
    | zero => cases hfails
    | succ wlen =>
      cases a with
      | interrupted => exact ih hfails hroom hleft
      | failed => exact ⟨s, wb, [], rfl, .refl wb⟩
      | data bs =>
        obtain ⟨s₁, wb₁, hstep, happ, hlength, hpos⟩ :=
          sendLoop_data bs hroom hleft
        have hwleft := happ.wleft_eq
        have htake := sub_length_take (wlen + 1) bs
        have hle : (bs.take (wlen + 1)).length ≤ wlen + 1 :=
          List.length_take_le _ _
        have hroom₁ : wlen + 1 - bs.length ≤ wb₁.wleft := by omega
        have hleft₁ : s₁.pos + (wlen + 1 - bs.length) ≤ s₁.length := by omega
        obtain ⟨s', wb', src, hrest, happ'⟩ := ih hfails hroom₁ hleft₁
        exact ⟨s', wb', _, (hstep reads).trans hrest, happ.trans happ'⟩

/-- **If no read fails, a call that returns has succeeded.** -/
theorem sendLoop_of_not_fails {reads : List PreadAnswer} {s s' : FileStream}
    {wb wb' : Buffer N} {wlen : ℕ} {code : SendCode}
    (hfails : readFails wlen reads = false) (hroom : wlen ≤ wb.wleft)
    (hleft : s.pos + wlen ≤ s.length)
    (h : s.sendLoop wb wlen reads = .returned code s' wb') : code = .ok := by
  induction reads generalizing s wb wlen with
  | nil =>
    cases wlen <;> cases h
    rfl
  | cons a reads ih =>
    cases wlen with
    | zero =>
      cases h
      rfl
    | succ wlen =>
      cases a with
      | interrupted => exact ih hfails hroom hleft h
      | failed => cases hfails
      | data bs =>
        obtain ⟨s₁, wb₁, hstep, happ, hlength, hpos⟩ :=
          sendLoop_data bs hroom hleft
        have hwleft := happ.wleft_eq
        have htake := sub_length_take (wlen + 1) bs
        have hle : (bs.take (wlen + 1)).length ≤ wlen + 1 :=
          List.length_take_le _ _
        exact ih hfails (by omega) (by omega) ((hstep reads).symm.trans h)

end FileStream

/-! ### The frame around the payload -/

/-- What goes out in front of the payload. -/
def OutgoingFrame.front (f : OutgoingFrame) : Bytes :=
  f.framehd ++ if f.padlen ≠ 0 then [(f.padlen - 1).toUInt8] else []

/-- What goes out behind the payload. -/
def OutgoingFrame.padding (f : OutgoingFrame) : Bytes :=
  List.replicate (f.padlen - 1) 0

/-- What is around the payload fills up the room a frame takes. -/
theorem OutgoingFrame.size_eq (f : OutgoingFrame) :
    f.size = f.front.length + f.length + f.padding.length := by
  have h := f.framehd_length
  unfold size front padding
  rw [List.length_append, List.length_replicate]
  split_ifs with hpad
  · rw [List.length_singleton]
    omega
  · rw [List.length_nil]
    omega

section SendDataCb

variable {σ : Type} {N : ℕ} {send : Buffer N → ℕ → σ → Sent σ N}
  {wb : Buffer N} {f : OutgoingFrame} {source : σ}

/-- Without room for the frame nothing happens. -/
theorem sendDataCb_of_lt (h : wb.wleft < f.size) :
    sendDataCb send wb f source = .returned .wouldBlock source wb := if_pos h

/-- **With room for the frame** its front is written, then the source writes
the payload, then the padding follows. -/
theorem sendDataCb_of_le (send : Buffer N → ℕ → σ → Sent σ N) (source : σ)
    (h : f.size ≤ wb.wleft) :
    ∃ wb₁, wb.Appends wb₁ f.front
      ∧ sendDataCb send wb f source
        = (send wb₁ f.length source).bindOk fun source wb₂ =>
          Sent.ofExcept source (if f.padlen ≠ 0
            then wb₂.fill 0 (f.padlen - 1) else .ok wb₂) := by
  have hsize := f.size_eq
  have hhd := f.framehd_length
  have hroom : f.framehd.length ≤ wb.wleft := by
    unfold OutgoingFrame.size at h
    omega
  obtain ⟨wb₁, hwrite, happ⟩ := wb.writeFull_of_le hroom
  have hwleft := happ.wleft_eq
  unfold OutgoingFrame.front sendDataCb
  rw [if_neg (Nat.not_lt.mpr h), hwrite]
  by_cases hpad : f.padlen ≠ 0
  · obtain ⟨wb₂, hbyte, happ'⟩ := wb₁.writeByte_of_lt (f.padlen - 1).toUInt8 (by
      unfold OutgoingFrame.size at h
      omega)
    refine ⟨wb₂, ?_, ?_⟩
    · rw [if_pos hpad]
      exact happ.trans happ'
    · simp only [Sent.ofExcept, Sent.bindOk, if_pos hpad, hbyte]
  · refine ⟨wb₁, ?_, ?_⟩
    · rw [if_neg hpad, List.append_nil]
      exact happ
    · simp only [Sent.ofExcept, Sent.bindOk, if_neg hpad]

end SendDataCb

/-- If a call that returns has succeeded, so has it with a last step that does
not fail. -/
theorem Sent.failsIntact_bindOk {σ : Type} {N : ℕ} {r : Sent σ N}
    {next : Buffer N → Except Fault (Buffer N)} {wb : Buffer N}
    (h : ∀ code source wb', r = .returned code source wb' → code = .ok) :
    (r.bindOk fun source wb₂ => Sent.ofExcept source (next wb₂)).FailsIntact
      wb := by
  intro code source wb' heq hne
  cases r with
  | fault e => cases heq
  | unfinished => cases heq
  | returned code₁ source₁ wb₁ =>
    rw [h code₁ source₁ wb₁ rfl, Sent.bindOk] at heq
    cases hnext : next wb₁ with
    | error e =>
      rw [hnext] at heq
      cases heq
    | ok wb₂ =>
      rw [hnext] at heq
      cases heq
      exact absurd rfl hne

/-- A string is never short of bytes. -/
theorem StringStream.send_ok {N : ℕ} {s s' : StringStream} {wb wb' : Buffer N}
    {length : ℕ} {code : SendCode}
    (h : s.send wb length = .returned code s' wb') : code = .ok := by
  unfold StringStream.send at h
  split_ifs at h
  cases hwrite : wb.writeFull (slice s.data s.offset length) with
  | error e =>
    rw [hwrite] at h
    cases h
  | ok wb₁ =>
    rw [hwrite] at h
    cases h
    rfl

/-- What a source other than a file returns is zero. -/
theorem DataStream.send_ok {N : ℕ} {ds ds' : DataStream} {wb wb' : Buffer N}
    {length : ℕ} {code : SendCode} {reads : List PreadAnswer}
    (hfile : ∀ s : FileStream, ds ≠ .file s)
    (h : ds.send reads wb length = .returned code ds' wb') : code = .ok := by
  cases ds with
  | file s => exact absurd rfl (hfile s)
  | string s =>
    rw [DataStream.send] at h
    cases hsend : s.send wb length with
    | returned code₁ s₁ wb₁ =>
      rw [hsend] at h
      cases h
      exact StringStream.send_ok hsend
    | fault e =>
      rw [hsend] at h
      cases h
    | unfinished =>
      rw [hsend] at h
      cases h
  | event s =>
    rw [DataStream.send] at h
    cases hsend : s.send wb length with
    | error e =>
      rw [hsend] at h
      cases h
    | ok r =>
      rw [hsend] at h
      cases h
      rfl

/-- **A file that cannot be read leaves the front of its frame behind.** -/
theorem sendDataCb_not_intact {N : ℕ} {wb : Buffer N} {f : OutgoingFrame}
    {s : FileStream} {reads : List PreadAnswer} (hroom : f.size ≤ wb.wleft)
    (hleft : f.length ≤ s.remaining.1)
    (hfails : readFails f.length reads = true) :
    ¬ (sendDataCb (DataStream.send reads) wb f (.file s)).FailsIntact wb := by
  obtain ⟨wb₁, happ, hcall⟩ :=
    sendDataCb_of_le (DataStream.send reads) (.file s) hroom
  have hsize := f.size_eq
  have hwleft := happ.wleft_eq
  have hpos := s.pos_le
  have hrest : f.length ≤ s.length - s.pos := hleft
  have hroom₁ : f.length ≤ wb₁.wleft := by omega
  have hleft₁ : s.pos + f.length ≤ s.length := by omega
  obtain ⟨s', wb', src, hsend, happ'⟩ :=
    FileStream.sendLoop_of_fails hfails hroom₁ hleft₁
  intro hintact
  have hfront : f.front ++ src ≠ [] := by
    refine List.ne_nil_of_length_pos ?_
    rw [List.length_append, OutgoingFrame.front, List.length_append,
      f.framehd_length]
    omega
  refine (happ.trans happ').ne hfront
    (hintact .temporalCallbackFailure (.file s') wb' ?_ (by decide))
  rw [hcall, DataStream.send, FileStream.send, if_pos hleft, hsend]
  rfl

/-- **A call that fails leaves the buffer as it was, unless it could not read
the file**: there was room for the frame, and a `pread` failed before the
payload was complete. -/
theorem sendDataCb_intact_iff {N : ℕ} (wb : Buffer N) (f : OutgoingFrame)
    (ds : DataStream) (reads : List PreadAnswer) :
    (sendDataCb (DataStream.send reads) wb f ds).FailsIntact wb
      ↔ ¬ (f.size ≤ wb.wleft ∧ ∃ s : FileStream, ds = .file s
        ∧ f.length ≤ s.remaining.1 ∧ readFails f.length reads = true) := by
  by_cases hroom : wb.wleft < f.size
  · refine iff_of_true ?_ fun h => absurd hroom (Nat.not_lt.mpr h.1)
    intro code source wb' h _
    rw [sendDataCb_of_lt hroom] at h
    cases h
    rfl
  have hle := Nat.not_lt.mp hroom
  by_cases hfile : ∃ s : FileStream, ds = .file s
    ∧ f.length ≤ s.remaining.1 ∧ readFails f.length reads = true
  · refine iff_of_false ?_ fun h => h ⟨hle, hfile⟩
    obtain ⟨s, rfl, hleft, hfails⟩ := hfile
    exact sendDataCb_not_intact hle hleft hfails
  · obtain ⟨wb₁, happ, hcall⟩ :=
      sendDataCb_of_le (DataStream.send reads) ds hle
    have hsize := f.size_eq
    have hwleft := happ.wleft_eq
    rw [hcall]
    refine iff_of_true (Sent.failsIntact_bindOk ?_) fun h => hfile h.2
    intro code source wb' h
    cases ds with
    | string s => exact DataStream.send_ok (fun _ h => DataStream.noConfusion h) h
    | event s => exact DataStream.send_ok (fun _ h => DataStream.noConfusion h) h
    | file s =>
      have hpos := s.pos_le
      rw [DataStream.send, FileStream.send] at h
      split_ifs at h with hleft
      · have hrest : f.length ≤ s.length - s.pos := hleft
        have hnot : readFails f.length reads = false :=
          eq_false_of_ne_true fun hf => hfile ⟨s, rfl, hleft, hf⟩
        cases hsend : s.sendLoop wb₁ f.length reads with
        | returned code₁ s₁ wb₂ =>
          rw [hsend] at h
          cases h
          exact FileStream.sendLoop_of_not_fails hnot (by omega) (by omega)
            hsend
        | fault e =>
          rw [hsend] at h
          cases h
        | unfinished =>
          rw [hsend] at h
          cases h
      · cases h

/-- A file of ten bytes that cannot be read. -/
def unreadable : FileStream := ⟨3, 10, 0, by decide, by decide⟩

/-- A frame for all of it. -/
def tenBytes : OutgoingFrame :=
  ⟨[0, 0, 10, 0, 1, 0, 0, 0, 1], by decide, 10, 0⟩

/-- **A header without a payload**: the read fails and the header stays. -/
theorem unreadable_not_intact :
    ¬ ∀ (wb : Buffer (64 * 1024)) (f : OutgoingFrame) (ds : DataStream)
      (reads : List PreadAnswer),
      (sendDataCb (DataStream.send reads) wb f ds).FailsIntact wb := by
  intro h
  have hroom : tenBytes.size ≤ (Buffer.empty (64 * 1024)).wleft := by decide
  have hleft : tenBytes.length ≤ unreadable.remaining.1 := by decide
  have hfails : readFails tenBytes.length [.failed] = true := rfl
  exact sendDataCb_not_intact hroom hleft hfails (h _ _ _ _)
