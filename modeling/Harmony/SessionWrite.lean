import Harmony.ResponseBody

/-!
# Writing to a connection

Everything a session sends goes through one buffer, on one of two paths. What
nghttp2 serialises itself – headers, settings, window updates – comes back from
`mem_send` as a chunk; it is copied, and what does not fit waits in
`data_pending_`. DATA frames are not copied: nghttp2 calls `send_data_cb`, and
the frame goes into the buffer at once or, if there is no room, stays with
nghttp2.

`write` empties the buffer with one `ssl_write` after the other, of which each
may take a part only or none, and refills it when it is empty. Whatever the
sizes and whatever `ssl_write` answers, the two paths never overtake each other:
what has been sent, then the buffer, then what is pending, is what nghttp2 has
emitted (`Keeps`, `WriteSide.written_of_run`). And when `write` stops the write
watcher there is nothing left anywhere: a frame that found no room in a buffer
that had just been emptied would be larger than the buffer.
-/

/-! ## What nghttp2 emits -/

/-- **A DATA frame** that waits in nghttp2, with the source of its payload. The
source does as it is asked: with room for the payload, it writes exactly
that. -/
structure PayloadFrame (N : ℕ) where
  frame : OutgoingFrame
  source : DataStream
  /-- What the `pread`s answer, if the source is a file. -/
  reads : List PreadAnswer
  payload : Bytes
  length_payload : payload.length = frame.length
  fits : frame.size ≤ N
  writes : ∀ wb : Buffer N, frame.length ≤ wb.wleft →
    ∃ source' wb', source.send reads wb frame.length
        = .returned .ok source' wb'
      ∧ wb.Appends wb' payload

/-- A frame on the wire. -/
def PayloadFrame.wire {N : ℕ} (f : PayloadFrame N) : Bytes :=
  f.frame.front ++ f.payload ++ f.frame.padding

/-- **A source that holds what is asked for** does as it is asked. -/
def PayloadFrame.ofHolds {N : ℕ} (frame : OutgoingFrame) (source : DataStream)
    (reads : List PreadAnswer) (content : Bytes) (fits : frame.size ≤ N)
    (hholds : source.Holds content) (hlength : frame.length ≤ content.length)
    (hreads : source.Readable content frame.length reads) : PayloadFrame N where
  frame := frame
  source := source
  reads := reads
  payload := content.take frame.length
  length_payload := by rw [List.length_take, Nat.min_eq_left hlength]
  fits := fits
  writes := fun _ hroom =>
    let ⟨source', wb', hsend, happ, _⟩ :=
      DataStream.send_holds hholds hlength hreads hroom
    ⟨source', wb', hsend, happ⟩

/-- **An item that nghttp2 emits.** -/
inductive Item (N : ℕ) where
  /-- A chunk that `mem_send` returns. -/
  | control (chunk : Bytes) (ne_nil : chunk ≠ [])
  /-- A frame that goes through `send_data_cb`. -/
  | data (f : PayloadFrame N)

variable {N : ℕ}

/-- An item on the wire. -/
def Item.wire : Item N → Bytes
  | .control chunk _ => chunk
  | .data f => f.wire

/-- Items on the wire, one after the other. -/
def wire (items : List (Item N)) : Bytes := (items.map Item.wire).flatten

/-- What is on the wire is one behind the other. -/
theorem wire_append (items items' : List (Item N)) :
    wire (items ++ items') = wire items ++ wire items' := by
  unfold wire
  rw [List.map_append, List.flatten_append]

/-- **With room for it a frame is written**, front, payload and padding. -/
theorem PayloadFrame.sent_of_le (f : PayloadFrame N) {wb : Buffer N}
    (hroom : f.frame.size ≤ wb.wleft) :
    ∃ source' wb', sendDataCb (DataStream.send f.reads) wb f.frame f.source
        = .returned .ok source' wb'
      ∧ wb.Appends wb' f.wire := by
  obtain ⟨wb₁, happ, hcall⟩ :=
    sendDataCb_of_le (DataStream.send f.reads) f.source hroom
  have hsize := f.frame.size_eq
  have hwleft := happ.wleft_eq
  obtain ⟨source', wb₂, hsend, happ₂⟩ := f.writes wb₁ (by omega)
  have hwleft₂ := happ₂.wleft_eq
  have hpayload := f.length_payload
  have hpadlen : f.frame.padding.length = f.frame.padlen - 1 :=
    List.length_replicate
  rw [hcall, hsend]
  show ∃ _ _, Sent.ofExcept source' (if f.frame.padlen ≠ 0
    then wb₂.fill 0 (f.frame.padlen - 1) else .ok wb₂) = _ ∧ _
  by_cases hpad : f.frame.padlen ≠ 0
  · have hroom₂ : f.frame.padlen - 1 ≤ wb₂.wleft := by omega
    obtain ⟨wb₃, hfill, happ₃⟩ := wb₂.fill_of_le 0 hroom₂
    rw [if_pos hpad, hfill]
    exact ⟨source', wb₃, rfl, (happ.trans happ₂).trans happ₃⟩
  · have hnone : f.frame.padding = [] := by
      unfold OutgoingFrame.padding
      rw [not_not.mp hpad]
      rfl
    rw [if_neg hpad]
    refine ⟨source', wb₂, rfl, ?_⟩
    unfold PayloadFrame.wire
    rw [hnone, List.append_nil]
    exact happ.trans happ₂

/-! ## `mem_send` -/

/-- **What a call of `nghttp2_session_mem_send` leaves.** -/
structure MemSend (N : ℕ) where
  /-- What is returned. If it is empty there is nothing, or nothing for
  now. -/
  data : Bytes
  wb : Buffer N
  /-- The items that are still with nghttp2. -/
  left : List (Item N)
  /-- The items it has emitted in this call. -/
  emitted : List (Item N)

/-- **`nghttp2_session_mem_send`**: DATA frames go through `send_data_cb`, up to
the first one there is no room for; the first other item is returned. A source
that fails ends the call with an error. -/
def memSend (wb : Buffer N) : List (Item N) → Option (MemSend N)
  | [] => some ⟨[], wb, [], []⟩
  | .control chunk h :: items => some ⟨chunk, wb, items, [.control chunk h]⟩
  | .data f :: items =>
    match sendDataCb (DataStream.send f.reads) wb f.frame f.source with
    | .returned .ok _ wb =>
      (memSend wb items).map fun r => { r with emitted := .data f :: r.emitted }
    | .returned .wouldBlock _ wb => some ⟨[], wb, .data f :: items, []⟩
    | _ => none

/-- What is promised of a call. -/
structure MemSend.Spec (wb : Buffer N) (items : List (Item N))
    (r : MemSend N) : Prop where
  split : r.emitted ++ r.left = items
  /-- What was written into the buffer, with what is returned, is what was
  emitted. -/
  direct : ∃ src, wb.Appends r.wb src ∧ src ++ r.data = wire r.emitted
  /-- If nothing is returned, nothing is left or there is no room for it. -/
  idle : r.data = [] → r.left = []
    ∨ ∃ f items', r.left = .data f :: items' ∧ r.wb.wleft < f.frame.size
  progress : r.data ≠ [] → r.left.length < items.length

/-- **A call of `mem_send` meets its specification.** -/
theorem memSend_spec (wb : Buffer N) (items : List (Item N)) :
    ∃ r, memSend wb items = some r ∧ r.Spec wb items := by
  induction items generalizing wb with
  | nil =>
    exact ⟨⟨[], wb, [], []⟩, rfl, rfl, ⟨[], .refl wb, rfl⟩,
      fun _ => Or.inl rfl, fun h => absurd rfl h⟩
  | cons item items ih =>
    cases item with
    | control chunk h =>
      exact ⟨⟨chunk, wb, items, [.control chunk h]⟩, rfl, rfl,
        ⟨[], .refl wb, (List.append_nil chunk).symm⟩, fun h' => absurd h' h,
        fun _ => Nat.lt_succ_self _⟩
    | data f =>
      rw [memSend]
      by_cases hroom : wb.wleft < f.frame.size
      · rw [sendDataCb_of_lt hroom]
        exact ⟨⟨[], wb, .data f :: items, []⟩, rfl, rfl, ⟨[], .refl wb, rfl⟩,
          fun _ => Or.inr ⟨f, items, rfl, hroom⟩, fun h => absurd rfl h⟩
      · obtain ⟨source', wb', hcall, happ⟩ :=
          f.sent_of_le (Nat.not_lt.mp hroom)
        obtain ⟨r, hr, hspec⟩ := ih wb'
        obtain ⟨src, hsrc, hwire⟩ := hspec.direct
        rw [hcall]
        dsimp only
        rw [hr]
        refine ⟨_, rfl, congrArg (Item.data f :: ·) hspec.split,
          ⟨f.wire ++ src, happ.trans hsrc, ?_⟩, hspec.idle,
          fun h => (hspec.progress h).trans (Nat.lt_succ_self _)⟩
        show (f.wire ++ src) ++ r.data = f.wire ++ wire r.emitted
        rw [List.append_assoc, hwire]

/-! ## The write side of a session -/

/-- **The write side of a session.** -/
structure WriteSide (N : ℕ) where
  /-- What nghttp2 has still to emit. -/
  items : List (Item N)
  wbuf : Buffer N
  /-- `data_pending_`. Where it is empty nothing is pending. -/
  pending : Bytes
  /-- The items emitted so far. -/
  emitted : List (Item N)
  /-- The bytes that `ssl_write` has accepted so far. -/
  sent : Bytes

/-- What `ssl_write` answers. -/
inductive SslAnswer where
  /-- It has taken that many bytes. -/
  | wrote (n : ℕ)
  /-- `SSL_ERROR_WANT_WRITE`, for which it returns zero. -/
  | wantWrite
  /-- Anything else, for which it returns -1. -/
  | failed
  deriving DecidableEq, Repr

/-- **How a call of `write` ends.** -/
inductive WriteEnd where
  /-- With nothing to write: it stops the write watcher. What it returns then
  says whether nghttp2 wants to go on. -/
  | stopped
  /-- With an `ssl_write` that blocks. -/
  | blocked
  /-- With an error. -/
  | failed
  deriving DecidableEq, Repr

namespace WriteSide

/-- A session that has sent nothing. -/
def start (N : ℕ) : WriteSide N := ⟨[], Buffer.empty N, [], [], []⟩

/-- What `fill_wb` does before it calls `mem_send`, and whether it returns
there: it copies what is pending, as far as there is room. -/
def copyPending (k : WriteSide N) : WriteSide N × Bool :=
  let (wb, n) := k.wbuf.write k.pending
  if n < k.pending.length then
    ({ k with wbuf := wb, pending := k.pending.drop n }, true)
  else ({ k with wbuf := wb, pending := [] }, false)

/-- The session after a call of `mem_send`. -/
def receive (k : WriteSide N) (r : MemSend N) : WriteSide N :=
  { k with
    items := r.left
    wbuf := r.wb
    pending := r.data
    emitted := k.emitted ++ r.emitted }

theorem items_copyPending (k : WriteSide N) : k.copyPending.1.items = k.items := by
  unfold copyPending
  dsimp only
  split_ifs
  · rfl
  · rfl

/-- **`HttpSession::fill_wb`.** -/
def fillWb (k : WriteSide N) : Option (WriteSide N) :=
  if k.copyPending.2 then some k.copyPending.1
  else
    match _h : memSend k.copyPending.1.wbuf k.copyPending.1.items with
    | none => none
    | some r =>
      if _hdata : r.data = [] then some (k.copyPending.1.receive r)
      else fillWb (k.copyPending.1.receive r)
termination_by k.items.length
decreasing_by
  obtain ⟨r', hr', hspec⟩ :=
    memSend_spec k.copyPending.1.wbuf k.copyPending.1.items
  rw [_h] at hr'
  cases hr'
  rw [← items_copyPending k]
  exact hspec.progress _hdata

/-- The buffer as `write` needs it: where it is empty, it is reset and
refilled. -/
def refill (k : WriteSide N) : Option (WriteSide N) :=
  if 0 < k.wbuf.rleft then some k
  else fillWb { k with wbuf := k.wbuf.reset }

/-- **`HttpSession::write`**, on what `ssl_write` answers. -/
def write (k : WriteSide N) (answers : List SslAnswer) :
    WriteEnd × WriteSide N :=
  match k.refill with
  | none => (.failed, k)
  | some k =>
    if k.wbuf.rleft = 0 then (.stopped, k)
    else
      match answers with
      | [] => (.blocked, k)
      | .wantWrite :: _ => (.blocked, k)
      | .failed :: _ => (.failed, k)
      | .wrote n :: answers =>
        write { k with
          sent := k.sent ++ k.wbuf.unread.take n
          wbuf := k.wbuf.drain n } answers

/-! ## What a call keeps -/

/-- **Nothing is lost, repeated or overtaken**: what has been sent, then the
buffer, then what is pending, is what has been emitted; and what has been
emitted, then what has not, is what nghttp2 was given. -/
structure Keeps (all : List (Item N)) (k : WriteSide N) : Prop where
  bytes : k.sent ++ k.wbuf.unread ++ k.pending = wire k.emitted
  items : k.emitted ++ k.items = all

variable {all : List (Item N)} {k : WriteSide N}

/-- Copying keeps the order, and stops only at a full buffer. -/
theorem Keeps.copyPending (h : k.Keeps all) :
    k.copyPending.1.Keeps all
      ∧ (∃ src, k.wbuf.Appends k.copyPending.1.wbuf src)
      ∧ (k.copyPending.2 = true → k.copyPending.1.wbuf.wleft = 0)
      ∧ (k.copyPending.2 = false → k.copyPending.1.pending = []) := by
  have happ := k.wbuf.appends_write k.pending
  have hwleft := happ.wleft_eq
  have hbytes := h.bytes
  rw [List.length_take, Buffer.write_snd] at hwleft
  unfold WriteSide.copyPending
  dsimp only
  split_ifs with hfull
  · rw [Buffer.write_snd] at hfull
    refine ⟨⟨?_, h.items⟩, ⟨_, happ⟩, fun _ => ?_, False.elim⟩
    · show k.sent ++ (k.wbuf.write k.pending).1.unread ++ k.pending.drop _ = _
      rw [happ.unread_eq, ← hbytes, List.append_assoc, List.append_assoc,
        List.take_append_drop, List.append_assoc]
    · show (k.wbuf.write k.pending).1.wleft = 0
      omega
  · rw [Buffer.write_snd] at hfull
    have hall : k.pending.take (k.wbuf.write k.pending).2 = k.pending := by
      rw [Buffer.write_snd]
      exact List.take_of_length_le (Nat.not_lt.mp hfull)
    refine ⟨⟨?_, h.items⟩, ⟨_, happ⟩, False.elim, fun _ => rfl⟩
    show k.sent ++ (k.wbuf.write k.pending).1.unread ++ [] = wire k.emitted
    rw [happ.unread_eq, hall, List.append_nil, ← hbytes, List.append_assoc]

/-- What `mem_send` leaves keeps the order, if nothing was pending. -/
theorem Keeps.receive {r : MemSend N} (h : k.Keeps all)
    (hnone : k.pending = []) (hspec : r.Spec k.wbuf k.items) :
    (k.receive r).Keeps all := by
  obtain ⟨src, happ, hwire⟩ := hspec.direct
  have hbytes := h.bytes
  rw [hnone, List.append_nil] at hbytes
  refine ⟨?_, ?_⟩
  · show k.sent ++ r.wb.unread ++ r.data = wire (k.emitted ++ r.emitted)
    rw [happ.unread_eq, wire_append, ← hbytes, ← hwire]
    simp only [List.append_assoc]
  · show (k.emitted ++ r.emitted) ++ r.left = all
    rw [List.append_assoc, hspec.split, h.items]

/-- **Nothing more fits**: nothing is pending, and what nghttp2 would emit next
has no room. -/
def Filled (k : WriteSide N) : Prop :=
  k.pending = [] ∧ (k.items = []
    ∨ ∃ f items, k.items = .data f :: items ∧ k.wbuf.wleft < f.frame.size)

/-- **`fill_wb` keeps the order**, and goes on until the buffer is full or
nothing more fits. -/
theorem Keeps.fillWb (h : k.Keeps all) :
    ∃ k', k.fillWb = some k' ∧ k'.Keeps all
      ∧ (∃ src, k.wbuf.Appends k'.wbuf src)
      ∧ (k'.wbuf.wleft = 0 ∨ k'.Filled) := by
  induction hitems : k.items.length using Nat.strong_induction_on
    generalizing k with
  | _ n ih =>
  obtain ⟨hkeeps, ⟨src, happ⟩, hfull, hnone⟩ := h.copyPending
  rw [WriteSide.fillWb]
  cases hcopy : k.copyPending.2 with
  | true =>
    exact ⟨k.copyPending.1, if_pos rfl, hkeeps, ⟨src, happ⟩,
      Or.inl (hfull hcopy)⟩
  | false =>
    obtain ⟨r, hr, hspec⟩ :=
      memSend_spec k.copyPending.1.wbuf k.copyPending.1.items
    have hkeeps' := hkeeps.receive (hnone hcopy) hspec
    obtain ⟨src', happ', -⟩ := hspec.direct
    rw [if_neg Bool.false_ne_true]
    split
    · rename_i hr'
      rw [hr] at hr'
      cases hr'
    · rename_i r' hr'
      rw [hr] at hr'
      cases hr'
      by_cases hdata : r.data = []
      · exact ⟨_, dif_pos hdata, hkeeps', ⟨_, happ.trans happ'⟩,
          Or.inr ⟨hdata, hspec.idle hdata⟩⟩
      · have hless : r.left.length < n := by
          rw [← hitems, ← items_copyPending k]
          exact hspec.progress hdata
        obtain ⟨k', hk', hkeeps'', ⟨src'', happ''⟩, hend⟩ :=
          ih r.left.length hless hkeeps' rfl
        rw [dif_neg hdata]
        exact ⟨k', hk', hkeeps'', ⟨_, (happ.trans happ').trans happ''⟩, hend⟩

/-- **A refilled buffer is empty only if there is nothing left**: a frame of
which it is not even the size would have found room. -/
theorem Keeps.refill (h : k.Keeps all) (hsize : 0 < N) :
    ∃ k', k.refill = some k' ∧ k'.Keeps all
      ∧ (k'.wbuf.rleft = 0 → k'.pending = [] ∧ k'.items = []) := by
  unfold WriteSide.refill
  split_ifs with hleft
  · exact ⟨k, rfl, h, fun hzero => absurd hzero hleft.ne'⟩
  · have hunread := k.wbuf.rleft_eq_zero_iff.mp (Nat.eq_zero_of_not_pos hleft)
    have hreset : Keeps all { k with wbuf := k.wbuf.reset } := by
      refine ⟨?_, h.items⟩
      have hbytes := h.bytes
      rw [hunread] at hbytes
      exact hbytes
    obtain ⟨k', hk', hkeeps, ⟨src, happ⟩, hend⟩ := hreset.fillWb
    refine ⟨k', hk', hkeeps, fun hzero => ?_⟩
    have hempty := k'.wbuf.rleft_eq_zero_iff.mp hzero
    have hwleft := happ.wleft_eq
    rw [happ.unread_eq] at hempty
    have hsrc : src = [] := hempty
    rw [hsrc, List.length_nil] at hwleft
    have hN : k'.wbuf.wleft = N := hwleft
    rcases hend with hfull | ⟨hpending, hitems | ⟨f, items, -, hroom⟩⟩
    · exact absurd (hN.symm.trans hfull) hsize.ne'
    · exact ⟨hpending, hitems⟩
    · rw [hN] at hroom
      exact absurd f.fits (Nat.not_le.mpr hroom)

/-- **`write` keeps the order**, and when it stops the watcher nothing is
left. -/
theorem Keeps.write (h : k.Keeps all) (hsize : 0 < N)
    (answers : List SslAnswer) :
    (k.write answers).2.Keeps all
      ∧ ((k.write answers).1 = .stopped →
        (k.write answers).2.wbuf.unread = []
          ∧ (k.write answers).2.pending = []
          ∧ (k.write answers).2.items = []) := by
  induction answers generalizing k with
  | nil =>
    obtain ⟨k₁, hk₁, hkeeps, hdone⟩ := h.refill hsize
    rw [WriteSide.write, hk₁]
    dsimp only
    split_ifs with hzero
    · exact ⟨hkeeps, fun _ => ⟨k₁.wbuf.rleft_eq_zero_iff.mp hzero, hdone hzero⟩⟩
    · exact ⟨hkeeps, False.elim⟩
  | cons a answers ih =>
    obtain ⟨k₁, hk₁, hkeeps, hdone⟩ := h.refill hsize
    rw [WriteSide.write, hk₁]
    dsimp only
    split_ifs with hzero
    · exact ⟨hkeeps, fun _ => ⟨k₁.wbuf.rleft_eq_zero_iff.mp hzero, hdone hzero⟩⟩
    · cases a with
      | wantWrite => exact ⟨hkeeps, fun hend => WriteEnd.noConfusion hend⟩
      | failed => exact ⟨hkeeps, fun hend => WriteEnd.noConfusion hend⟩
      | wrote n =>
        refine ih ⟨?_, hkeeps.items⟩
        show (k₁.sent ++ k₁.wbuf.unread.take n) ++ (k₁.wbuf.drain n).unread
          ++ k₁.pending = wire k₁.emitted
        rw [Buffer.unread_drain, List.append_assoc k₁.sent,
          List.take_append_drop, hkeeps.bytes]

/-! ## Runs -/

/-- **What happens to a session that writes.** -/
inductive Step (N : ℕ) where
  /-- nghttp2 has more to emit. -/
  | emit (items : List (Item N))
  /-- The session writes. -/
  | write (answers : List SslAnswer)

/-- One step. -/
def step (k : WriteSide N) : Step N → WriteSide N
  | .emit items => { k with items := k.items ++ items }
  | .write answers => (k.write answers).2

/-- The items of a run. -/
def given : List (Step N) → List (Item N)
  | [] => []
  | .emit items :: steps => items ++ given steps
  | .write _ :: steps => given steps

/-- Every step keeps the order. -/
theorem Keeps.run {all : List (Item N)} (h : k.Keeps all) (hsize : 0 < N)
    (steps : List (Step N)) :
    (steps.foldl step k).Keeps (all ++ given steps) := by
  induction steps generalizing k all with
  | nil =>
    rw [given, List.append_nil]
    exact h
  | cons e steps ih =>
    cases e with
    | emit items =>
      rw [given, ← List.append_assoc]
      refine ih ⟨h.bytes, ?_⟩
      show k.emitted ++ (k.items ++ items) = all ++ items
      rw [← List.append_assoc, h.items]
    | write answers => exact ih (h.write hsize answers).1

/-- **What is written is what was emitted.** Whatever nghttp2 emits and whatever
`ssl_write` answers, after any run the bytes accepted by `ssl_write`, followed
by the unread part of the buffer, followed by what is pending, are the items
emitted so far, and these are the first of the items given; and whenever a call
of `write` then stops the write watcher, nothing is left unread, pending, or
with nghttp2. -/
theorem written_of_run (steps : List (Step (64 * 1024))) :
    (steps.foldl step (start _)).Keeps (given steps)
      ∧ ∀ answers,
        ((steps.foldl step (start _)).write answers).1 = .stopped →
          ((steps.foldl step (start _)).write answers).2.wbuf.unread = []
          ∧ ((steps.foldl step (start _)).write answers).2.pending = []
          ∧ ((steps.foldl step (start _)).write answers).2.items = [] := by
  have hstart : (start (64 * 1024)).Keeps [] := ⟨rfl, rfl⟩
  have hkeeps := hstart.run (by decide) steps
  rw [List.nil_append] at hkeeps
  exact ⟨hkeeps, fun answers => (hkeeps.write (by decide) answers).2⟩

end WriteSide
