import Harmony.StringView
import Mathlib.Data.List.Count

/-!
# The frames of a request

`nghttp2` reports the frames of a request by two callbacks: a chunk of a DATA
frame as it comes in (`onDataChunkRecv`), and every frame once it is complete
(`onFrameRecv`). A request is dispatched with its first complete DATA frame,
or with the frame that ends it, and the request is told the end of its body
(`handleBody`).

A request may end with its header frame, with a DATA frame or with trailers
(`RequestFrames`). In `onFrameRecv` the case of a DATA frame falls through
into that of a header frame, and both look at the end of the stream, but only
the first one calls `handleBody`: the end reaches the request exactly where a
DATA frame brings it (`RequestFrames.endsOnce_iff`).
-/

/-- `nghttp2_headers_category`. -/
inductive HeadersCategory where
  | request
  | response
  | pushResponse
  | headers
  deriving DecidableEq, Repr

/-- **A complete frame**, as far as `on_frame_recv_cb` reads it. -/
inductive Frame where
  /-- A DATA frame. The category is what is found in the place of the
  category of a header frame, which a DATA frame does not have. -/
  | data (cat : HeadersCategory) (endStream : Bool)
  | headers (cat : HeadersCategory) (endStream : Bool)
  /-- Any other frame. -/
  | other
  deriving DecidableEq, Repr

/-- What a callback does with a stream. -/
inductive StreamCall where
  | parsePath
  /-- The request is dispatched. -/
  | prepareResponse
  | handleData (str : Bytes)
  | handleBody
  /-- `submit_non_final_response("100")`. -/
  | submitContinue
  | stopReadTimeout
  | resetReadTimeout
  deriving DecidableEq, Repr

/-- **A stream**, as far as the frames of its request go. -/
structure HttpStream where
  /-- Whether the request expects `100-continue`. -/
  expectContinue : Bool
  preparedResponse : Bool
  /-- What the callbacks have done. -/
  calls : List StreamCall
  deriving DecidableEq, Repr

namespace HttpStream

/-- A stream whose headers have come in. -/
def new (expectContinue : Bool) : HttpStream := ⟨expectContinue, false, []⟩

/-- A call on the stream. -/
def call (s : HttpStream) (c : StreamCall) : HttpStream :=
  { s with calls := s.calls ++ [c] }

/-- The block that dispatches a request that has not been dispatched. -/
def prepare (s : HttpStream) : HttpStream :=
  if s.preparedResponse then s
  else
    { ((s.call .parsePath).call .prepareResponse) with
      preparedResponse := true }

/-- The case of a header frame. -/
def recvHeaders (s : HttpStream) (cat : HeadersCategory) (endStream : Bool) :
    HttpStream :=
  let s :=
    if cat = .request ∧ s.expectContinue then s.call .submitContinue else s
  if endStream then s.prepare.call .stopReadTimeout
  else s.call .resetReadTimeout

/-- **`HttpSession::on_frame_recv_cb`** on a stream that is there. -/
def onFrameRecv (s : HttpStream) : Frame → HttpStream
  | .data cat endStream =>
    let s := s.prepare
    let s :=
      if endStream then (s.call .stopReadTimeout).call .handleBody
      else s.call .resetReadTimeout
    -- the case of a DATA frame has no break
    s.recvHeaders cat endStream
  | .headers cat endStream => s.recvHeaders cat endStream
  | .other => s

/-- `HttpSession::on_data_chunk_recv_cb` on a stream that is there. -/
def onDataChunkRecv (s : HttpStream) (data : Bytes) : HttpStream :=
  (s.call (.handleData data)).call .resetReadTimeout

end HttpStream

/-- What `nghttp2` reports. -/
inductive SessionEvent where
  | chunk (data : Bytes)
  | frame (f : Frame)
  deriving DecidableEq, Repr

namespace HttpStream

/-- One report. -/
def recv (s : HttpStream) : SessionEvent → HttpStream
  | .chunk data => s.onDataChunkRecv data
  | .frame f => s.onFrameRecv f

/-- The reports in turn. -/
def recvAll (s : HttpStream) (es : List SessionEvent) : HttpStream :=
  es.foldl recv s

end HttpStream

/-- **A DATA frame with its chunks.** -/
structure DataFrame where
  chunks : List Bytes
  /-- What is found in the place of the category. -/
  cat : HeadersCategory
  deriving DecidableEq, Repr

/-- The reports of a DATA frame: its chunks, then the frame. -/
def DataFrame.events (f : DataFrame) (endStream : Bool) : List SessionEvent :=
  f.chunks.map .chunk ++ [.frame (.data f.cat endStream)]

/-- **The legal frames of a request**: its headers, DATA frames, perhaps
trailers; the last of them ends the stream. -/
inductive RequestFrames where
  /-- The headers end the stream. -/
  | headersOnly
  /-- The last DATA frame ends the stream. -/
  | endedByData (frames : List DataFrame) (last : DataFrame)
  /-- Trailers end the stream. -/
  | endedByTrailers (frames : List DataFrame)
  deriving DecidableEq, Repr

namespace RequestFrames

/-- What `nghttp2` reports of the frames. -/
def events : RequestFrames → List SessionEvent
  | headersOnly => [.frame (.headers .request true)]
  | endedByData frames last =>
    .frame (.headers .request false)
      :: (frames.flatMap (·.events false) ++ last.events true)
  | endedByTrailers frames =>
    .frame (.headers .request false)
      :: (frames.flatMap (·.events false) ++ [.frame (.headers .headers true)])

/-- The chunks of the body. -/
def chunks : RequestFrames → List Bytes
  | headersOnly => []
  | endedByData frames last => frames.flatMap (·.chunks) ++ last.chunks
  | endedByTrailers frames => frames.flatMap (·.chunks)

/-- The chunk a call hands over. -/
def handed : StreamCall → Option Bytes
  | .handleData str => some str
  | _ => none

/-- **The request ends once**: it is dispatched once and told the end once,
after the dispatch and after all chunks were handed over. -/
def EndsOnce (q : RequestFrames) (calls : List StreamCall) : Prop :=
  ∃ before after, calls = before ++ .handleBody :: after
    ∧ StreamCall.handleBody ∉ before ∧ StreamCall.handleBody ∉ after
    ∧ before.count .prepareResponse = 1 ∧ StreamCall.prepareResponse ∉ after
    ∧ before.filterMap handed = q.chunks ∧ after.filterMap handed = []

/-- Whether a DATA frame ends the stream. -/
def EndedByData (q : RequestFrames) : Prop :=
  ∃ frames last, q = endedByData frames last

end RequestFrames

namespace HttpStream

open RequestFrames (handed)

/-- **What holds before the end**: the request has not been told it, was
dispatched once if at all, and was handed these chunks. -/
structure Underway (s : HttpStream) (chunks : List Bytes) : Prop where
  noEnd : StreamCall.handleBody ∉ s.calls
  dispatched : s.calls.count .prepareResponse = s.preparedResponse.toNat
  chunksHanded : s.calls.filterMap handed = chunks

theorem underway_new (expectContinue : Bool) :
    (new expectContinue).Underway [] :=
  ⟨List.not_mem_nil, rfl, rfl⟩

/-- Calls that are none of the three do not matter. -/
theorem Underway.call {s : HttpStream} {chunks : List Bytes}
    (h : s.Underway chunks) {c : StreamCall} (hend : c ≠ .handleBody)
    (hdispatch : c ≠ .prepareResponse) (hhanded : handed c = none) :
    (s.call c).Underway chunks := by
  refine ⟨?_, ?_, ?_⟩
  · rw [HttpStream.call, List.mem_append, List.mem_singleton, not_or]
    exact ⟨h.noEnd, Ne.symm hend⟩
  · rw [HttpStream.call, List.count_append, List.count_singleton, h.dispatched,
      beq_eq_false_iff_ne.mpr hdispatch]
    rfl
  · rw [HttpStream.call, List.filterMap_append, h.chunksHanded, List.filterMap_cons,
      hhanded]
    exact List.append_nil chunks

/-- Dispatching does not dispatch twice. -/
theorem Underway.prepare {s : HttpStream} {chunks : List Bytes}
    (h : s.Underway chunks) :
    s.prepare.Underway chunks ∧ s.prepare.preparedResponse = true := by
  unfold HttpStream.prepare
  split_ifs with hprepared
  · exact ⟨h, hprepared⟩
  · have hcount := h.dispatched
    rw [(Bool.not_eq_true _).mp hprepared] at hcount
    refine ⟨⟨?_, ?_, ?_⟩, rfl⟩
    · simp [HttpStream.call, h.noEnd]
    · simp [HttpStream.call, hcount]
    · simp [HttpStream.call, h.chunksHanded, handed]

/-- A header frame that does not end the stream. -/
theorem Underway.recvHeaders {s : HttpStream} {chunks : List Bytes}
    (h : s.Underway chunks) (cat : HeadersCategory) (endStream : Bool) :
    (s.recvHeaders cat endStream).Underway chunks := by
  have hcontinue : (if cat = .request ∧ s.expectContinue
      then s.call .submitContinue else s).Underway chunks := by
    split_ifs
    · exact h.call (by simp) (by simp) rfl
    · exact h
  unfold HttpStream.recvHeaders
  dsimp only
  cases endStream with
  | false => exact hcontinue.call (by simp) (by simp) rfl
  | true => exact hcontinue.prepare.1.call (by simp) (by simp) rfl

/-- A chunk is handed over. -/
theorem Underway.onDataChunkRecv {s : HttpStream} {chunks : List Bytes}
    (h : s.Underway chunks) (data : Bytes) :
    (s.onDataChunkRecv data).Underway (chunks ++ [data]) := by
  refine Underway.call ⟨?_, ?_, ?_⟩ (by simp) (by simp) rfl
  · simp [HttpStream.call, h.noEnd]
  · simp [HttpStream.call, h.dispatched]
  · simp [HttpStream.call, h.chunksHanded, handed]

/-- The chunks of a frame are handed over. -/
theorem Underway.recvAll_chunks {s : HttpStream} {chunks : List Bytes}
    (h : s.Underway chunks) (data : List Bytes) :
    (s.recvAll (data.map .chunk)).Underway (chunks ++ data) := by
  induction data generalizing s chunks with
  | nil =>
    rw [List.append_nil]
    exact h
  | cons str data ih =>
    have hrest := ih (h.onDataChunkRecv str)
    rwa [List.append_assoc] at hrest

/-- DATA frames that do not end the stream. -/
theorem Underway.recvAll_frames {s : HttpStream} {chunks : List Bytes}
    (h : s.Underway chunks) (frames : List DataFrame) :
    (s.recvAll (frames.flatMap (·.events false))).Underway
      (chunks ++ frames.flatMap (·.chunks)) := by
  induction frames generalizing s chunks with
  | nil =>
    rw [List.flatMap_nil, List.flatMap_nil, List.append_nil]
    exact h
  | cons f frames ih =>
    have hframe : (s.recvAll (f.events false)).Underway
        (chunks ++ f.chunks) := by
      rw [DataFrame.events, recvAll, List.foldl_append]
      have hchunks := (h.recvAll_chunks f.chunks).prepare.1
      exact (hchunks.call (by simp) (by simp) rfl).recvHeaders f.cat false
    have hrest := ih hframe
    rw [List.append_assoc] at hrest
    rw [List.flatMap_cons, List.flatMap_cons, recvAll, List.foldl_append]
    exact hrest

/-- The frames of a request that do not end it. -/
theorem underway_begin (expectContinue : Bool) (frames : List DataFrame) :
    ((new expectContinue).recvAll (.frame (.headers .request false)
      :: frames.flatMap (·.events false))).Underway
        (frames.flatMap (·.chunks)) :=
  ((underway_new expectContinue).recvHeaders .request false).recvAll_frames
    frames

/-- What follows the end in the same callback is none of the three calls. -/
theorem calls_recvHeaders {s : HttpStream} (h : s.preparedResponse = true)
    (cat : HeadersCategory) :
    ∃ after, (s.recvHeaders cat true).calls = s.calls ++ after
      ∧ StreamCall.handleBody ∉ after ∧ StreamCall.prepareResponse ∉ after
      ∧ after.filterMap handed = [] := by
  unfold recvHeaders
  dsimp only
  rw [if_pos rfl]
  split_ifs
  · refine ⟨[.submitContinue, .stopReadTimeout], ?_, by decide, by decide, rfl⟩
    rw [prepare, if_pos (show (s.call .submitContinue).preparedResponse = true
      from h)]
    exact List.append_assoc _ _ _
  · refine ⟨[.stopReadTimeout], ?_, by decide, by decide, rfl⟩
    rw [prepare, if_pos h]
    rfl

end HttpStream

namespace RequestFrames

open HttpStream

/-- **A DATA frame brings the end.** -/
theorem endsOnce_endedByData (expectContinue : Bool) (frames : List DataFrame)
    (last : DataFrame) :
    (endedByData frames last).EndsOnce
      ((HttpStream.new expectContinue).recvAll
        (endedByData frames last).events).calls := by
  have hbegin := underway_begin expectContinue frames
  have hchunks := (hbegin.recvAll_chunks last.chunks).prepare
  have hbefore := hchunks.1.call (c := .stopReadTimeout) (by simp) (by simp) rfl
  -- the frame after its chunks
  generalize hs : (((HttpStream.new expectContinue).recvAll
    (.frame (.headers .request false) :: frames.flatMap (·.events false))).recvAll
      (last.chunks.map .chunk)).prepare = s at hchunks hbefore
  obtain ⟨after, hafter, hend, hdispatch, hhanded⟩ := calls_recvHeaders
    (s := (s.call .stopReadTimeout).call .handleBody) hchunks.2 last.cat
  refine ⟨(s.call .stopReadTimeout).calls, after, ?_, hbefore.noEnd, hend, ?_,
    hdispatch, hbefore.chunksHanded, hhanded⟩
  · have hrun : (HttpStream.new expectContinue).recvAll
        (endedByData frames last).events
        = ((s.call .stopReadTimeout).call .handleBody).recvHeaders last.cat
          true := by
      rw [events, ← List.cons_append, DataFrame.events, recvAll,
        List.foldl_append, List.foldl_append, ← hs]
      rfl
    rw [hrun, hafter]
    exact List.append_assoc _ _ _
  · rw [hbefore.dispatched]
    show s.preparedResponse.toNat = 1
    rw [hchunks.2]
    rfl

/-- **No other frame does.** -/
theorem not_endsOnce_of_underway {q : RequestFrames} {s : HttpStream}
    {chunks : List Bytes} (h : s.Underway chunks) : ¬ q.EndsOnce s.calls := by
  rintro ⟨before, after, hcalls, -⟩
  refine h.noEnd ?_
  rw [hcalls]
  exact List.mem_append_right _ List.mem_cons_self

/-- **The request ends once exactly where a DATA frame ends the stream.** -/
theorem endsOnce_iff (expectContinue : Bool) (q : RequestFrames) :
    q.EndsOnce ((HttpStream.new expectContinue).recvAll q.events).calls
      ↔ q.EndedByData := by
  cases q with
  | headersOnly =>
    refine iff_of_false (not_endsOnce_of_underway
      ((underway_new expectContinue).recvHeaders .request true)) ?_
    rintro ⟨frames, last, h⟩
    cases h
  | endedByData frames last =>
    exact iff_of_true (endsOnce_endedByData expectContinue frames last)
      ⟨frames, last, rfl⟩
  | endedByTrailers frames =>
    have hend : ((HttpStream.new expectContinue).recvAll
        (endedByTrailers frames).events).Underway
          (frames.flatMap (·.chunks)) := by
      rw [events, ← List.cons_append, recvAll, List.foldl_append]
      exact (underway_begin expectContinue frames).recvHeaders .headers true
    refine iff_of_false (not_endsOnce_of_underway hend) ?_
    rintro ⟨frames', last, h⟩
    cases h

/-- **A request without a body is never told its end.** -/
theorem headersOnly_not_endsOnce :
    ¬ ∀ (expectContinue : Bool) (q : RequestFrames),
      q.EndsOnce ((HttpStream.new expectContinue).recvAll q.events).calls := by
  intro h
  obtain ⟨before, after, hcalls, -⟩ := h false headersOnly
  have hmem : StreamCall.handleBody
      ∈ ((HttpStream.new false).recvAll headersOnly.events).calls := by
    rw [hcalls]
    exact List.mem_append_right _ List.mem_cons_self
  exact absurd hmem (by decide)

end RequestFrames
