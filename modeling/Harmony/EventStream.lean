import Harmony.Buffer

/-!
# Event streams

A server-sent event goes out as

    event: <name>\n
    data: <payload>\n
    \n

and HTTP/2 flow control decides in which pieces. `EventStream::send` is
called with the size of each piece in turn: it keeps the offset `pos` into
the event at the front of the queue, and finds out on every call in which
of the segments (`event: `, the name, the line feed, `data: `, the payload,
the two line feeds) it left off.

`Event.frame` is what an event should look like on the wire, and
`EventStream.send_eq` says what a call makes of it: the next `wlen` bytes
of the frame, *unless* the piece ends before the payload is reached or
starts at the very last byte. In these two cases the payload is cut at an
offset beyond its end – in the first case because `pos_ - ext_pre` wraps –
and `substr` throws.
-/

/-- What an event carries. The alternatives differ in who owns the bytes. -/
inductive Event.Content where
  /-- A `std::string`. -/
  | string (s : Bytes)
  /-- A `std::string_view`. -/
  | view (s : Bytes)
  /-- A `db::SharedResultString`. -/
  | result (s : Bytes)
  /-- A `db::SharedNotify`. -/
  | notify (s : Bytes)
  deriving DecidableEq, Repr

/-- The bytes of the content, whoever owns them. -/
def Event.Content.toView : Event.Content → Bytes
  | .string s => s
  | .view s => s
  | .result s => s
  | .notify s => s

/-- **An event.** Its text fits a `size_t` with room for what goes around
it, as that of any two strings in memory does. -/
structure Event where
  /-- What the client sees as the type of the event. -/
  name : Bytes
  /-- What is sent. -/
  content : Event.Content
  fits : name.length + content.toView.length + 16 < 2 ^ 64
  deriving DecidableEq

namespace Event

/-- The content as a string view. -/
def view (ev : Event) : Bytes := ev.content.toView

/-- The number of bytes of the content. -/
def length (ev : Event) : ℕ := ev.view.length

/-- The literal in front of the name. -/
def s1 : Bytes := bytes "event: "

/-- The literal in front of the payload. -/
def s2 : Bytes := bytes "data: "

/-- A line feed. -/
def newline : Bytes := [10]

/-- How many bytes go out before the payload. -/
def extPre (ev : Event) : ℕ := s1.length + ev.name.length + s2.length + 1

/-- How many bytes go out for the whole event. -/
def len (ev : Event) : ℕ := ev.extPre + ev.length + 2

/-- What goes out before the payload. -/
def head (ev : Event) : Bytes := s1 ++ ev.name ++ newline ++ s2

/-- **An event on the wire.** -/
def frame (ev : Event) : Bytes :=
  ev.head ++ (ev.view ++ (newline ++ newline))

theorem length_head (ev : Event) : ev.head.length = ev.extPre := by
  simp only [head, extPre, newline, List.length_append, List.length_singleton]
  omega

theorem length_frame (ev : Event) : ev.frame.length = ev.len := by
  simp only [frame, len, length, newline, List.length_append, length_head,
    List.length_singleton]
  omega

end Event

open Event StringView

/-! ## The model -/

/-- **An event stream**: the events still to be sent, how much of the first
one is out already, and whether the stream waits for an event. -/
structure EventStream where
  /-- The events still to be sent. -/
  queue : List Event
  /-- How many bytes of the first event are out. -/
  pos : ℕ
  /-- Whether the stream ran dry and waits for an event. -/
  paused : Bool

namespace EventStream

variable {N : ℕ}

/-- `EventStream::length`, which marks the stream paused where there is
nothing to send. -/
def length (s : EventStream) : ℕ × EventStream :=
  match s.queue with
  | [] => (0, { s with paused := true })
  | ev :: _ =>
    (ev.name.length + ev.length + (s1.length + s2.length + 3), s)

/-- `EventStream::remaining`: how much of the first event is left, and
whether the stream ends there – it never does. -/
def remaining (s : EventStream) : (ℕ × Bool) × EventStream :=
  let (n, s') := s.length
  ((subSizeT n s.pos, false), s')

/-- The piece one turn of the loop writes: what is left of the segment the
offset is in, cut at `toWrite`. -/
def piece (ev : Event) (pos toWrite : ℕ) : Except Fault Bytes :=
  let l1 := s1.length
  let l2 := s2.length
  let nl := ev.name.length
  if pos < l1 then
    substr s1 pos toWrite
  else if pos < l1 + nl then
    substr ev.name (pos - l1) toWrite
  else if pos = l1 + nl then
    .ok newline
  else if pos < l1 + nl + 1 + l2 then
    substr s2 (pos - (l1 + nl + 1)) toWrite
  else
    .ok []

/-- Before the payload there is always a next piece, and it is a slice of
the head. -/
theorem piece_spec {ev : Event} {pos toWrite : ℕ} (hpos : pos < ev.extPre)
    (hw : 0 < toWrite) :
    ∃ t, piece ev pos toWrite = .ok t ∧ 0 < t.length ∧ t.length ≤ toWrite
      ∧ pos + t.length ≤ ev.extPre ∧ t = slice ev.head pos t.length := by
  -- whichever segment the offset is in, the piece is what is left of it
  have hcut : ∀ a b c : Bytes, ev.head = a ++ (b ++ c) → a.length ≤ pos →
      pos < a.length + b.length →
      ∃ t, substr b (pos - a.length) toWrite = .ok t ∧ 0 < t.length
        ∧ t.length ≤ toWrite ∧ pos + t.length ≤ ev.extPre
        ∧ t = slice ev.head pos t.length := by
    intro a b c hhead ha hb
    have hlen := length_slice_eq b (pos - a.length) toWrite
    have hext : a.length + (b.length + c.length) = ev.extPre := by
      rw [← length_head, hhead, List.length_append, List.length_append]
    refine ⟨slice b (pos - a.length) toWrite, substr_of_le _ (by omega),
      by omega, by omega, by omega, ?_⟩
    rw [hhead]
    exact slice_middle toWrite ha
  simp only [piece]
  split_ifs with h₁ h₂ h₃ h₄
  · exact hcut [] s1 (ev.name ++ newline ++ s2) (by simp [head])
      (Nat.zero_le _) (by simpa using h₁)
  · exact hcut s1 ev.name (newline ++ s2) (by simp [head]) (by omega) h₂
  · refine ⟨newline, rfl, by decide, hw, ?_, ?_⟩
    · simp only [extPre, newline, List.length_singleton]
      omega
    · have hl : (s1 ++ ev.name).length = pos := by
        rw [List.length_append, h₃]
      have h := slice_middle (a := s1 ++ ev.name) (b := newline) (c := s2)
        1 hl.le
      rw [hl, Nat.sub_self] at h
      simpa [head, newline, slice] using h
  · have hl : (s1 ++ ev.name ++ newline).length
        = s1.length + ev.name.length + 1 := by
      simp only [newline, List.length_append, List.length_singleton]
    rw [← hl]
    exact hcut (s1 ++ ev.name ++ newline) s2 [] (by simp [head])
      (by omega) (by rw [hl]; exact h₄)
  · exact absurd hpos (by unfold extPre; omega)

/-- The loop that writes the rest of the head, segment by segment, until
`toWrite` bytes are out or the payload is reached. It returns the offset
and the count it stops with. -/
def writePieces (ev : Event) (wb : Buffer N) (pos toWrite : ℕ) :
    Except Fault (Buffer N × ℕ × ℕ) :=
  if _h : toWrite ≠ 0 ∧ pos < ev.extPre then
    match _ht : piece ev pos toWrite with
    | .error e => .error e
    | .ok t =>
      match wb.writeFull t with
      | .error e => .error e
      | .ok wb' => writePieces ev wb' (pos + t.length) (toWrite - t.length)
  else
    .ok (wb, pos, toWrite)
termination_by toWrite
decreasing_by
  obtain ⟨t', h', hpos, -⟩ := piece_spec _h.2 (Nat.pos_of_ne_zero _h.1)
  rw [_ht] at h'
  cases h'
  omega

/-- One turn of the loop. -/
theorem writePieces_step {ev : Event} {wb wb' : Buffer N} {pos toWrite : ℕ}
    {t : Bytes} (h : toWrite ≠ 0 ∧ pos < ev.extPre)
    (ht : piece ev pos toWrite = .ok t) (hw : wb.writeFull t = .ok wb') :
    writePieces ev wb pos toWrite
      = writePieces ev wb' (pos + t.length) (toWrite - t.length) := by
  rw [writePieces, dif_pos h]
  split
  · rename_i e he
    rw [ht] at he
    cases he
  · rename_i t' ht'
    rw [ht] at ht'
    cases ht'
    rw [hw]

/-- **The loop writes the part of the head the call covers.** -/
theorem writePieces_spec (ev : Event) (wb : Buffer N) (pos toWrite : ℕ)
    (hroom : toWrite ≤ wb.wleft) :
    ∃ wb', writePieces ev wb pos toWrite
        = .ok (wb', pos + min toWrite (ev.extPre - pos),
            toWrite - (ev.extPre - pos))
      ∧ wb.Appends wb' (slice ev.head pos toWrite) := by
  induction toWrite using Nat.strong_induction_on generalizing wb pos with
  | _ toWrite ih =>
    by_cases h : toWrite ≠ 0 ∧ pos < ev.extPre
    · obtain ⟨t, ht, hpos, hle, hext, hslice⟩ :=
        piece_spec h.2 (Nat.pos_of_ne_zero h.1)
      obtain ⟨wb₁, hw, happ⟩ := wb.writeFull_of_le (hle.trans hroom)
      have hroom₁ : toWrite - t.length ≤ wb₁.wleft := by
        have := happ.wleft_eq
        omega
      obtain ⟨wb₂, hrest, happ₂⟩ :=
        ih (toWrite - t.length) (by omega) wb₁ (pos + t.length) hroom₁
      have hjoin : slice ev.head pos toWrite
          = t ++ slice ev.head (pos + t.length) (toWrite - t.length) :=
        calc slice ev.head pos toWrite
            = slice ev.head pos (t.length + (toWrite - t.length)) := by
              rw [Nat.add_sub_cancel' hle]
          _ = slice ev.head pos t.length
                ++ slice ev.head (pos + t.length) (toWrite - t.length) :=
              (slice_append_slice _ _ _ _).symm
          _ = t ++ slice ev.head (pos + t.length) (toWrite - t.length) := by
              rw [← hslice]
      refine ⟨wb₂, ?_, hjoin ▸ happ.trans happ₂⟩
      rw [writePieces_step h ht hw, hrest]
      simp only [Except.ok.injEq, Prod.mk.injEq, true_and]
      omega
    · refine ⟨wb, ?_, ?_⟩
      · rw [writePieces, dif_neg h]
        simp only [Except.ok.injEq, Prod.mk.injEq, true_and]
        omega
      · have hnil : slice ev.head pos toWrite = [] := by
          by_cases h0 : toWrite = 0
          · rw [h0, slice_zero]
          · exact slice_of_le _ (by rw [length_head]; omega)
        rw [hnil]
        exact Buffer.Appends.refl wb

/-- The part of `send` before the payload: all of the head in one go where
the call covers it, and the loop otherwise. -/
def writeHead (ev : Event) (wb : Buffer N) (pos wlen : ℕ) :
    Except Fault (Buffer N × ℕ × ℕ) :=
  if pos = 0 ∧ ev.extPre ≤ wlen then do
    -- faster path?
    let wb ← wb.writeFull s1
    let wb ← wb.writeFull ev.name
    let wb ← wb.writeFull newline
    let wb ← wb.writeFull s2
    .ok (wb, pos + ev.extPre, wlen - ev.extPre)
  else
    writePieces ev wb pos wlen

/-- **The faster path and the loop agree.** -/
theorem writeHead_spec (ev : Event) (wb : Buffer N) (pos wlen : ℕ)
    (hroom : wlen ≤ wb.wleft) :
    ∃ wb', writeHead ev wb pos wlen
        = .ok (wb', pos + min wlen (ev.extPre - pos),
            wlen - (ev.extPre - pos))
      ∧ wb.Appends wb' (slice ev.head pos wlen) := by
  by_cases h : pos = 0 ∧ ev.extPre ≤ wlen
  · obtain ⟨rfl, hle⟩ := h
    have hext : s1.length + ev.name.length + s2.length + 1 = ev.extPre := rfl
    have hnl : newline.length = 1 := rfl
    have hs1 : s1.length ≤ wb.wleft := by omega
    obtain ⟨wb₁, h₁, a₁⟩ := wb.writeFull_of_le hs1
    have w₁ := a₁.wleft_eq
    have hname : ev.name.length ≤ wb₁.wleft := by omega
    obtain ⟨wb₂, h₂, a₂⟩ := wb₁.writeFull_of_le hname
    have w₂ := a₂.wleft_eq
    have hline : newline.length ≤ wb₂.wleft := by omega
    obtain ⟨wb₃, h₃, a₃⟩ := wb₂.writeFull_of_le hline
    have w₃ := a₃.wleft_eq
    have hs2 : s2.length ≤ wb₃.wleft := by omega
    obtain ⟨wb₄, h₄, a₄⟩ := wb₃.writeFull_of_le hs2
    refine ⟨wb₄, ?_, ?_⟩
    · rw [writeHead, if_pos ⟨rfl, hle⟩]
      simp only [h₁, h₂, h₃, h₄, Except.ok_bind, Nat.sub_zero,
        Nat.min_eq_right hle]
    · have hall : slice ev.head 0 wlen = s1 ++ ev.name ++ newline ++ s2 := by
        rw [← slice_min, length_head, Nat.sub_zero, Nat.min_eq_right hle,
          ← length_head, slice_length]
        rfl
      rw [hall]
      exact ((a₁.trans a₂).trans a₃).trans a₄
  · rw [writeHead, if_neg h]
    exact writePieces_spec ev wb pos wlen hroom

/-- The loop that writes what is left of the two line feeds. -/
def writeNewlines (wb : Buffer N) : ℕ → Except Fault (Buffer N)
  | 0 => .ok wb
  | n + 1 => do
    let wb ← wb.writeByte 10
    writeNewlines wb n

theorem writeNewlines_spec (wb : Buffer N) (n : ℕ) (hroom : n ≤ wb.wleft) :
    ∃ wb', writeNewlines wb n = .ok wb'
      ∧ wb.Appends wb' (List.replicate n 10) := by
  induction n generalizing wb with
  | zero => exact ⟨wb, rfl, Buffer.Appends.refl wb⟩
  | succ n ih =>
    obtain ⟨wb₁, h₁, a₁⟩ := wb.writeByte_of_lt 10 (by omega)
    have w₁ := a₁.wleft_eq
    obtain ⟨wb₂, h₂, a₂⟩ := ih wb₁ (by simp at w₁; omega)
    refine ⟨wb₂, ?_, a₁.trans a₂⟩
    rw [writeNewlines, h₁, Except.ok_bind, h₂]

/-- The part of `send` from the payload on: the payload is cut at the
offset into it, and whatever is left to write is line feeds. It returns the
new offset. -/
def writeTail (ev : Event) (wb : Buffer N) (pos toWrite : ℕ) :
    Except Fault (Buffer N × ℕ) := do
  let t ← substr ev.view (subSizeT pos ev.extPre) toWrite
  let wb ← wb.writeFull t
  let wb ← writeNewlines wb (toWrite - t.length)
  .ok (wb, pos + t.length + (toWrite - t.length))

/-- **From the payload on**, where the offset is neither short of the
payload nor past it, the rest of the call is the rest of the frame. -/
theorem writeTail_spec (ev : Event) (wb : Buffer N) (pos toWrite : ℕ)
    (hpre : ev.extPre ≤ pos) (hpay : pos ≤ ev.extPre + ev.length)
    (hlen : pos + toWrite ≤ ev.len) (hroom : toWrite ≤ wb.wleft) :
    ∃ wb', writeTail ev wb pos toWrite = .ok (wb', pos + toWrite)
      ∧ wb.Appends wb' (slice ev.frame pos toWrite) := by
  have hfits := ev.fits
  have hl : ev.length = ev.view.length := rfl
  have hv : ev.view.length = ev.content.toView.length := rfl
  have hext : s1.length + ev.name.length + s2.length + 1 = ev.extPre := rfl
  have hs : s1.length + s2.length = 13 := by decide
  have hend : ev.extPre + ev.length + 2 = ev.len := rfl
  have hoff : subSizeT pos ev.extPre = pos - ev.extPre :=
    subSizeT_of_le hpre (by omega)
  set t := slice ev.view (pos - ev.extPre) toWrite with ht
  have htl : t.length = min toWrite (ev.view.length - (pos - ev.extPre)) :=
    length_slice_eq _ _ _
  have hsub : substr ev.view (subSizeT pos ev.extPre) toWrite = .ok t := by
    rw [hoff]
    exact substr_of_le _ (by omega)
  have hroom₁ : t.length ≤ wb.wleft := by omega
  obtain ⟨wb₁, h₁, a₁⟩ := wb.writeFull_of_le hroom₁
  have w₁ := a₁.wleft_eq
  obtain ⟨wb₂, h₂, a₂⟩ := writeNewlines_spec wb₁ (toWrite - t.length) (by omega)
  refine ⟨wb₂, ?_, ?_⟩
  · rw [writeTail, hsub, Except.ok_bind, h₁, Except.ok_bind, h₂,
      Except.ok_bind]
    rw [show pos + t.length + (toWrite - t.length) = pos + toWrite by omega]
  · have hnl : newline ++ newline = List.replicate 2 (10 : UInt8) := rfl
    have hframe : slice ev.frame pos toWrite
        = t ++ List.replicate (toWrite - t.length) 10 := by
      rw [frame, slice_append, slice_of_le _ (by rw [length_head]; exact hpre),
        List.nil_append, length_head, Nat.sub_eq_zero_of_le hpre, Nat.sub_zero,
        slice_append, ← ht, hnl]
      refine congrArg (t ++ ·) ?_
      rw [slice, List.drop_replicate, List.take_replicate]
      exact congrArg (List.replicate · _) (by omega)
    rw [hframe]
    exact a₁.trans a₂

/-- Short of the payload the offset into it wraps, and past the payload it
lies beyond its end: `substr` throws. -/
theorem writeTail_outOfRange (ev : Event) (wb : Buffer N)
    (pos toWrite : ℕ) (h : pos < ev.extPre ∨ ev.extPre + ev.length < pos)
    (hlen : pos ≤ ev.len) :
    writeTail ev wb pos toWrite = .error .outOfRange := by
  have hfits := ev.fits
  have hl : ev.length = ev.view.length := rfl
  have hv : ev.view.length = ev.content.toView.length := rfl
  have hext : s1.length + ev.name.length + s2.length + 1 = ev.extPre := rfl
  have hs : s1.length + s2.length = 13 := by decide
  have hend : ev.extPre + ev.length + 2 = ev.len := rfl
  have hbeyond : ev.view.length < subSizeT pos ev.extPre := by
    rcases h with h | h
    · rw [subSizeT_of_lt h]
      omega
    · rw [subSizeT_of_le (by omega) (by omega)]
      omega
  rw [writeTail, substr_of_lt _ hbeyond, Except.error_bind]

/-- `EventStream::send`. -/
def send (s : EventStream) (wb : Buffer N) (wlen : ℕ) :
    Except Fault (EventStream × Buffer N) :=
  match s.queue with
  | [] => .ok (s, wb)
  | ev :: rest =>
    if s.pos + wlen ≤ ev.len then do
      let (wb, pos, toWrite) ← writeHead ev wb s.pos wlen
      let (wb, pos) ← writeTail ev wb pos toWrite
      if ev.len ≤ pos then
        -- wrote this event fully, reset position
        .ok ({ s with queue := rest, pos := 0 }, wb)
      else
        .ok ({ s with pos := pos }, wb)
    else
      .error .assertion

/-! ## What one call sends -/

/-- The stream after `wlen` further bytes of its first event: the event
leaves the queue with its last byte. -/
def advance (s : EventStream) (wlen : ℕ) : EventStream :=
  match s.queue with
  | [] => s
  | ev :: rest =>
    if ev.len ≤ s.pos + wlen then { s with queue := rest, pos := 0 }
    else { s with pos := s.pos + wlen }

/-- **The pieces `send` can cope with**: the piece reaches the payload, and
it does not start at the last byte of the event. -/
def CleanPiece (s : EventStream) (wlen : ℕ) : Prop :=
  match s.queue with
  | [] => True
  | ev :: _ => ev.extPre ≤ s.pos + wlen ∧ s.pos + 1 ≠ ev.len

/-- **A clean piece is sent**: the call appends the next `wlen` bytes of
the event's frame and moves on by as much. -/
theorem send_of_clean {s : EventStream} {ev : Event} {rest : List Event}
    {wb : Buffer N} {wlen : ℕ} (hq : s.queue = ev :: rest) (hw : 1 ≤ wlen)
    (hlen : s.pos + wlen ≤ ev.len) (hroom : wlen ≤ wb.wleft)
    (hc : s.CleanPiece wlen) :
    ∃ wb', s.send wb wlen = .ok (s.advance wlen, wb')
      ∧ wb.Appends wb' (slice ev.frame s.pos wlen) := by
  have hend : ev.extPre + ev.length + 2 = ev.len := rfl
  simp only [CleanPiece, hq] at hc
  obtain ⟨wb₁, h₁, a₁⟩ := writeHead_spec ev wb s.pos wlen hroom
  have w₁ := a₁.wleft_eq
  have hl₁ := length_slice_eq ev.head s.pos wlen
  rw [length_head] at hl₁
  obtain ⟨wb₂, h₂, a₂⟩ := writeTail_spec ev wb₁
    (s.pos + min wlen (ev.extPre - s.pos)) (wlen - (ev.extPre - s.pos))
    (by omega) (by omega) (by omega) (by omega)
  refine ⟨wb₂, ?_, ?_⟩
  · have hpos : s.pos + min wlen (ev.extPre - s.pos)
        + (wlen - (ev.extPre - s.pos)) = s.pos + wlen := by omega
    rw [hpos] at h₂
    simp only [send, advance, hq, if_pos hlen, h₁, h₂, Except.ok_bind]
    split_ifs <;> rfl
  · have hskip : slice ev.head (s.pos + min wlen (ev.extPre - s.pos))
        (wlen - (ev.extPre - s.pos)) = [] := by
      by_cases h : wlen ≤ ev.extPre - s.pos
      · rw [Nat.sub_eq_zero_of_le h, slice_zero]
      · exact slice_of_le _ (by rw [length_head]; omega)
    have hjoin : slice ev.frame s.pos wlen
        = slice ev.head s.pos wlen
          ++ slice ev.frame (s.pos + min wlen (ev.extPre - s.pos))
            (wlen - (ev.extPre - s.pos)) := by
      conv_lhs => rw [frame, slice_append, length_head]
      conv_rhs => rw [frame, slice_append ev.head _ (s.pos + _), length_head,
        hskip, List.nil_append]
      rw [show s.pos + min wlen (ev.extPre - s.pos) - ev.extPre
          = s.pos - ev.extPre by omega,
        show wlen - (ev.extPre - s.pos)
            - (ev.extPre - (s.pos + min wlen (ev.extPre - s.pos)))
          = wlen - (ev.extPre - s.pos) by omega]
    rw [hjoin]
    exact a₁.trans a₂

/-- **Any other piece throws.** -/
theorem send_of_not_clean {s : EventStream} {ev : Event} {rest : List Event}
    {wb : Buffer N} {wlen : ℕ} (hq : s.queue = ev :: rest) (hw : 1 ≤ wlen)
    (hlen : s.pos + wlen ≤ ev.len) (hroom : wlen ≤ wb.wleft)
    (hc : ¬ s.CleanPiece wlen) : s.send wb wlen = .error .outOfRange := by
  have hend : ev.extPre + ev.length + 2 = ev.len := rfl
  simp only [CleanPiece, hq, not_and_or, ne_eq, not_not, not_le] at hc
  obtain ⟨wb₁, h₁, -⟩ := writeHead_spec ev wb s.pos wlen hroom
  have hthrow := writeTail_outOfRange ev wb₁
    (s.pos + min wlen (ev.extPre - s.pos)) (wlen - (ev.extPre - s.pos))
    (by omega) (by omega)
  simp only [send, hq, if_pos hlen, h₁, hthrow, Except.ok_bind,
    Except.error_bind]

/-! ## What a sequence of calls sends

The session answers every `data_read_cb` with the size it wants, so a
response is a sequence of calls, each with the write buffer as the session
left it at that moment. -/

/-- One call of `send`: the write buffer as it stands, and the size asked
for. -/
structure Call (N : ℕ) where
  /-- The write buffer. -/
  wb : Buffer N
  /-- How much to write. -/
  wlen : ℕ

/-- The calls in turn, with the buffers they leave behind. -/
def sendAll (s : EventStream) :
    List (Call N) → Except Fault (EventStream × List (Buffer N))
  | [] => .ok (s, [])
  | c :: cs => do
    let (s, wb) ← s.send c.wb c.wlen
    let (s, wbs) ← s.sendAll cs
    .ok (s, wb :: wbs)

/-- **The calls the session makes**: each asks for at least one byte, for no
more than `remaining` reports, and for no more than fits in the buffer. -/
def Asked (s : EventStream) : List (Call N) → Prop
  | [] => True
  | c :: cs =>
    1 ≤ c.wlen ∧ c.wlen ≤ s.remaining.1.1 ∧ c.wlen ≤ c.wb.wleft
      ∧ ∀ s' wb', s.send c.wb c.wlen = .ok (s', wb') → Asked s' cs

/-- The sizes asked for split the events cleanly: no piece ends before the
payload, and none starts at the last byte of an event. -/
def CleanSplit (s : EventStream) : List ℕ → Prop
  | [] => True
  | wlen :: wlens => s.CleanPiece wlen ∧ CleanSplit (s.advance wlen) wlens

instance (s : EventStream) (wlen : ℕ) : Decidable (s.CleanPiece wlen) := by
  unfold CleanPiece
  cases s.queue with
  | nil => exact instDecidableTrue
  | cons ev rest => exact inferInstanceAs (Decidable (_ ∧ _))

/-- What is still to go out: the frames of the queued events, less what is
out of the first one. -/
def owed (s : EventStream) : Bytes :=
  (s.queue.map frame).flatten.drop s.pos

/-- What a call put into its buffer. -/
def written (c : Call N) (wb' : Buffer N) : Bytes :=
  wb'.unread.drop c.wb.unread.length

/-- **The events arrive**: every call returns and appends exactly the bytes
asked for, and what the calls wrote, one after the other, is the text owed
at the start less the text owed at the end. -/
def Delivered (s : EventStream) (calls : List (Call N)) : Prop :=
  ∃ s' wbs, s.sendAll calls = .ok (s', wbs)
    ∧ List.Forall₂ (fun c wb' => c.wb.Appends wb' (written c wb')
        ∧ (written c wb').length = c.wlen) calls wbs
    ∧ (List.zipWith written calls wbs).flatten ++ s'.owed = s.owed

/-- The offset lies inside the first event. -/
def Inside (s : EventStream) : Prop :=
  match s.queue with
  | [] => s.pos = 0
  | ev :: _ => s.pos < ev.len

theorem inside_advance {s : EventStream} (wlen : ℕ) (hin : s.Inside) :
    (s.advance wlen).Inside := by
  unfold advance
  split
  · exact hin
  · rename_i ev rest hq
    split_ifs with h
    · cases rest with
      | nil => rfl
      | cons ev' rest =>
        show 0 < ev'.len
        exact Nat.succ_pos _
    · simp only [Inside, hq]
      omega

/-- `remaining` reports what is left of the first event. -/
theorem remaining_of_cons {s : EventStream} {ev : Event} {rest : List Event}
    (hq : s.queue = ev :: rest) (hin : s.Inside) :
    s.remaining.1.1 = ev.len - s.pos := by
  have hfits := ev.fits
  have hs : s1.length + s2.length = 13 := by decide
  have hlen : ev.len = s1.length + ev.name.length + s2.length + 1
      + ev.content.toView.length + 2 := rfl
  have hl : ev.length = ev.content.toView.length := rfl
  simp only [Inside, hq] at hin
  simp only [remaining, length, hq]
  rw [show ev.name.length + ev.length + (s1.length + s2.length + 3) = ev.len by
    omega]
  exact subSizeT_of_le hin.le (by omega)

/-- A piece of the first event is the beginning of what is owed. -/
theorem slice_append_owed_advance {s : EventStream} {ev : Event}
    {rest : List Event} {wlen : ℕ} (hq : s.queue = ev :: rest)
    (hlen : s.pos + wlen ≤ ev.len) :
    slice ev.frame s.pos wlen ++ (s.advance wlen).owed = s.owed := by
  have hfr := length_frame ev
  simp only [owed, advance, hq, List.map_cons, List.flatten_cons]
  rw [List.drop_append_of_le_length (by omega)]
  split_ifs with h
  · rw [List.drop_zero, ← List.append_nil (slice ev.frame s.pos wlen),
      ← List.drop_eq_nil_of_le (by omega : ev.frame.length ≤ s.pos + wlen),
      slice_append_drop]
  · rw [List.map_cons, List.flatten_cons]
    show _ ++ (ev.frame ++ _).drop (s.pos + wlen) = _
    rw [List.drop_append_of_le_length (by omega), ← List.append_assoc,
      slice_append_drop]

/-- **Appended bytes are what the call wrote.** -/
theorem written_of_appends {c : Call N} {wb' : Buffer N} {t : Bytes}
    (h : c.wb.Appends wb' t) : written c wb' = t := by
  rw [written, h.unread_eq, List.drop_left]

/-- One call, then the others. -/
theorem sendAll_cons {s s' : EventStream} {c : Call N} {wb' : Buffer N}
    (h : s.send c.wb c.wlen = .ok (s', wb')) (cs : List (Call N)) :
    s.sendAll (c :: cs)
      = (s'.sendAll cs).map (fun r => (r.1, wb' :: r.2)) := by
  rw [sendAll, h, Except.ok_bind]
  show (s'.sendAll cs >>= fun r => Except.ok (r.1, wb' :: r.2)) = _
  cases s'.sendAll cs with
  | error e => rfl
  | ok r => rfl

/-- The calls arrive exactly where the pieces are clean, from any offset
inside the first event. -/
theorem delivered_iff_of_inside (calls : List (Call N)) (s : EventStream)
    (hin : s.Inside) (hasked : s.Asked calls) :
    s.Delivered calls ↔ s.CleanSplit (calls.map Call.wlen) := by
  induction calls generalizing s with
  | nil =>
    exact iff_of_true ⟨s, [], rfl, List.Forall₂.nil, rfl⟩ trivial
  | cons c cs ih =>
    obtain ⟨hpos, hrem, hroom, hnext⟩ := hasked
    cases hq : s.queue with
    | nil =>
      simp only [Inside, hq] at hin
      simp only [remaining, length, hq, hin] at hrem
      exact absurd (hpos.trans hrem) (by decide)
    | cons ev rest =>
      rw [remaining_of_cons hq hin] at hrem
      have hlen : s.pos + c.wlen ≤ ev.len := by omega
      by_cases hc : s.CleanPiece c.wlen
      · obtain ⟨wb', hsend, happ⟩ := send_of_clean hq hpos hlen hroom hc
        have hih := ih (s.advance c.wlen) (inside_advance _ hin)
          (hnext _ _ hsend)
        have hw := written_of_appends happ
        have hfr := length_frame ev
        have howed := slice_append_owed_advance hq hlen
        rw [List.map_cons, CleanSplit, and_iff_right hc, ← hih]
        constructor
        · rintro ⟨s', wbs, hall, hforall, htext⟩
          rw [sendAll_cons hsend] at hall
          cases hrest : (s.advance c.wlen).sendAll cs with
          | error e =>
            rw [hrest] at hall
            cases hall
          | ok r =>
            rw [hrest] at hall
            cases hall
            cases hforall with
            | cons _ hforall =>
              refine ⟨r.1, r.2, hrest, hforall, ?_⟩
              rw [List.zipWith_cons_cons, List.flatten_cons, hw,
                List.append_assoc, ← howed] at htext
              exact List.append_cancel_left htext
        · rintro ⟨s', wbs, hall, hforall, htext⟩
          refine ⟨s', wb' :: wbs, ?_, List.Forall₂.cons ?_ hforall, ?_⟩
          · rw [sendAll_cons hsend, hall]
            rfl
          · rw [hw]
            exact ⟨happ, length_slice (by omega)⟩
          · rw [List.zipWith_cons_cons, List.flatten_cons, hw,
              List.append_assoc, htext, howed]
      · refine iff_of_false ?_ (fun h => hc h.1)
        rintro ⟨s', wbs, hall, -⟩
        rw [sendAll, send_of_not_clean hq hpos hlen hroom hc,
          Except.error_bind] at hall
        cases hall

/-- **The events arrive exactly where they are split cleanly.** From the
beginning of an event on, any calls the session makes succeed and write the
frames of the queued events byte for byte, if and only if no piece ends
before a payload and none starts at the last byte of an event. -/
theorem delivered_iff_cleanSplit (s : EventStream) (calls : List (Call N))
    (hstart : s.pos = 0) (hqueue : s.queue ≠ []) (hasked : s.Asked calls) :
    s.Delivered calls ↔ s.CleanSplit (calls.map Call.wlen) := by
  refine delivered_iff_of_inside calls s ?_ hasked
  cases hq : s.queue with
  | nil => exact absurd hq hqueue
  | cons ev rest =>
    simp only [Inside, hq, hstart]
    exact Nat.succ_pos _

/-- The event a stream is pinged with. -/
def pingEvent : Event where
  name := bytes "ping"
  content := .view (bytes "Hello!")
  fits := by decide

/-- A call for a clean piece, and the calls behind it. -/
theorem asked_cons {s : EventStream} {ev : Event} {rest : List Event}
    {c : Call N} {cs : List (Call N)} (hq : s.queue = ev :: rest)
    (hw : 1 ≤ c.wlen) (hlen : s.pos + c.wlen ≤ ev.len)
    (hroom : c.wlen ≤ c.wb.wleft) (hc : s.CleanPiece c.wlen)
    (h : (s.advance c.wlen).Asked cs) : s.Asked (c :: cs) := by
  have hin : s.Inside := by
    unfold Inside
    rw [hq]
    exact lt_of_lt_of_le (Nat.lt_add_of_pos_right hw) hlen
  refine ⟨hw, ?_, hroom, fun s' wb' hsend => ?_⟩
  · rw [remaining_of_cons hq hin]
    exact Nat.le_sub_of_add_le' hlen
  · obtain ⟨wb₁, hsend₁, -⟩ := send_of_clean hq hw hlen hroom hc
    rw [hsend] at hsend₁
    cases hsend₁
    exact h

/-- A notification. -/
def newsEvent : Event where
  name := bytes "news"
  content := .notify (bytes "rain")
  fits := by decide

/-- A notification behind a ping. -/
def pingAndNews : EventStream := ⟨[pingEvent, newsEvent], 0, false⟩

/-- Two pieces for each of the two. -/
def fourPieces : List (Call 64) :=
  [⟨.empty 64, 20⟩, ⟨.empty 64, 6⟩, ⟨.empty 64, 19⟩, ⟨.empty 64, 5⟩]

theorem asked_fourPieces : pingAndNews.Asked fourPieces := by
  refine asked_cons rfl ?_ ?_ ?_ ?_ (asked_cons rfl ?_ ?_ ?_ ?_
    (asked_cons rfl ?_ ?_ ?_ ?_ (asked_cons rfl ?_ ?_ ?_ ?_ trivial)))
  all_goals decide

/-- Two events arrive in four pieces. -/
theorem fourPieces_delivered : pingAndNews.Delivered fourPieces :=
  (delivered_iff_cleanSplit _ _ rfl (by decide) asked_fourPieces).mpr
    ⟨by decide, by decide, by decide, by decide, trivial⟩

/-- **A piece may not end inside `event: `.** Three bytes of a ping, which
the connection window may well ask for, throw. -/
theorem ping_not_delivered :
    ¬ ∀ (s : EventStream) (calls : List (Call (64 * 1024))), s.pos = 0 →
      s.queue ≠ [] → s.Asked calls → s.Delivered calls := by
  intro h
  have hroom : 3 ≤ (Buffer.empty (64 * 1024)).wleft := by decide
  have hthrow : (EventStream.mk [pingEvent] 0 false).send
      (Buffer.empty (64 * 1024)) 3 = .error .outOfRange :=
    send_of_not_clean rfl (by decide) (by decide) hroom (by decide)
  obtain ⟨s', wbs, hall, -⟩ := h (EventStream.mk [pingEvent] 0 false)
    [Call.mk (Buffer.empty (64 * 1024)) 3] rfl (by simp)
    ⟨by decide, by decide, hroom, fun _ _ _ => trivial⟩
  rw [sendAll, hthrow, Except.error_bind] at hall
  cases hall

end EventStream
