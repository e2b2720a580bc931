import Harmony.Buffer
import Harmony.Run

/-!
# The write buffer is a bounded queue

`Buffer<N>` moves two positions over one array, in eight operations, one of
which copies what is still unread down to the beginning of the array it is
stored in. None of that shows from outside: what lies between the two
positions is a first-in-first-out queue of at most `N` bytes.

The queue is `Fifo`, which knows nothing of arrays or positions: bytes are
put in at the end, taken off the front, or thrown away together. Each
operation of a buffer names what it does to the queue (`BufferOp.event`),
in terms of the number of bytes it reports, and `BufferOp.run_spec` says
that this is all it does. A run is then a run of the queue
(`Logged.exec_spec`), for every capacity and every order of operations.
-/

/-! ## Queues -/

namespace Fifo

variable {α : Type}

/-- **What can happen to a queue.** -/
inductive Event (α : Type) where
  /-- These come in at the end. -/
  | put (xs : List α)
  /-- So many leave at the front. -/
  | take (n : ℕ)
  /-- Everything leaves. -/
  | clear
  deriving DecidableEq

/-- The queue after an event. -/
def step (q : List α) : Event α → List α
  | .put xs => q ++ xs
  | .take n => q.drop n
  | .clear => []

/-- What leaves the queue at an event. -/
def leaves (q : List α) : Event α → List α
  | .put _ => []
  | .take n => q.take n
  | .clear => q

/-- What comes in at an event. -/
def enters : Event α → List α
  | .put xs => xs
  | .take _ => []
  | .clear => []

/-- The queue after the events in turn. -/
def run (q : List α) (es : List (Event α)) : List α := es.foldl step q

/-- What leaves the queue at the events in turn, in the order it leaves. -/
def taken (q : List α) : List (Event α) → List α
  | [] => []
  | e :: es => leaves q e ++ taken (step q e) es

/-- What comes in at the events in turn, in the order it comes. -/
def puts (es : List (Event α)) : List α := es.flatMap enters

theorem leaves_append_step (q : List α) (e : Event α) :
    leaves q e ++ step q e = q ++ enters e := by
  cases e with
  | put xs => rfl
  | take n => rw [leaves, step, enters, List.take_append_drop, List.append_nil]
  | clear => rfl

theorem run_append (q : List α) (es es' : List (Event α)) :
    run q (es ++ es') = run (run q es) es' := List.foldl_append

/-- **First in, first out**: what has left, followed by what is still there,
is what came in, in that order. -/
theorem taken_append_run (q : List α) (es : List (Event α)) :
    taken q es ++ run q es = q ++ puts es := by
  induction es generalizing q with
  | nil => rw [taken, run, puts, List.foldl_nil, List.flatMap_nil,
      List.nil_append, List.append_nil]
  | cons e es ih =>
    calc taken q (e :: es) ++ run q (e :: es)
        = leaves q e ++ (taken (step q e) es ++ run (step q e) es) :=
          List.append_assoc _ _ _
      _ = leaves q e ++ step q e ++ puts es := by
          rw [ih, List.append_assoc]
      _ = q ++ puts (e :: es) := by
          rw [leaves_append_step, List.append_assoc, puts, puts,
            List.flatMap_cons]

end Fifo

/-! ## A copy within one array -/

/-- `std::copy(first, last, d_first)` inside one array: the elements in turn,
from the left, each read after the ones before it have been written. -/
def copyDown (buf : Bytes) (src dst : ℕ) : ℕ → Bytes
  | 0 => buf
  | n + 1 => copyDown (buf.set dst (buf.getD src 0)) (src + 1) (dst + 1) n

@[simp] theorem length_copyDown (buf : Bytes) (src dst n : ℕ) :
    (copyDown buf src dst n).length = buf.length := by
  induction n generalizing buf src dst with
  | zero => rfl
  | succ n ih => rw [copyDown, ih, List.length_set]

/-- **A copy downwards may overlap**: what is read has not been written yet,
since the destination stays below the source. -/
theorem getElem?_copyDown {buf : Bytes} {src dst n : ℕ} (hle : dst ≤ src)
    (hlen : src + n ≤ buf.length) (i : ℕ) :
    (copyDown buf src dst n)[i]?
      = if dst ≤ i ∧ i < dst + n then buf[src + (i - dst)]? else buf[i]? := by
  induction n generalizing buf src dst with
  | zero => rw [copyDown, if_neg (by omega)]
  | succ n ih =>
    have hget : buf.getD src 0 = buf[src] := by
      rw [List.getD_eq_getElem?_getD, List.getElem?_eq_getElem (by omega)]
      rfl
    rw [copyDown, ih (by omega) (by rw [List.length_set]; omega)]
    by_cases hi : i = dst
    · -- the element just written: the rest of the copy starts above it
      subst hi
      rw [if_neg (by omega), if_pos (by omega), List.getElem?_set_self (by omega),
        hget, Nat.sub_self, Nat.add_zero, List.getElem?_eq_getElem (by omega)]
    · rw [List.getElem?_set_ne (by omega), List.getElem?_set_ne (by omega)]
      by_cases hin : dst + 1 ≤ i ∧ i < dst + 1 + n
      · rw [if_pos hin, if_pos (by omega),
          show src + 1 + (i - (dst + 1)) = src + (i - dst) by omega]
      · rw [if_neg hin, if_neg (by omega)]

/-- What has been copied is what was there. -/
theorem slice_copyDown {buf : Bytes} {src dst n : ℕ} (hle : dst ≤ src)
    (hlen : src + n ≤ buf.length) :
    slice (copyDown buf src dst n) dst n = slice buf src n := by
  refine List.ext_getElem? fun i => ?_
  rw [slice, slice, List.getElem?_take, List.getElem?_take, List.getElem?_drop,
    List.getElem?_drop, getElem?_copyDown hle hlen]
  by_cases hi : i < n
  · rw [if_pos hi, if_pos hi, if_pos (by omega), Nat.add_sub_cancel_left]
  · rw [if_neg hi, if_neg hi]

namespace Buffer

variable {N : ℕ}

/-! ## The remaining operations -/

/-- The constructor: both positions at the beginning of a storage that is not
initialised, so that it may hold anything. -/
def fresh (storage : Bytes) (h : storage.length = N) : Buffer N where
  buf := storage
  pos := 0
  last := 0
  length_buf := h
  pos_le_last := Nat.le_refl 0
  last_le := Nat.zero_le N

/-- What others store through `last()`, where there is room for it: no
position moves. -/
def store (b : Buffer N) (src : Bytes) (h : src.length ≤ b.wleft) :
    Buffer N where
  buf := (b.copyN src h).buf
  pos := b.pos
  last := b.last
  length_buf := (b.copyN src h).length_buf
  pos_le_last := b.pos_le_last
  last_le := b.last_le

/-- `write(count)`: updates the state as if so many bytes had been written.
The second component is how many. -/
def advance (b : Buffer N) (count : ℕ) : Buffer N × ℕ :=
  ({ buf := b.buf
     pos := b.pos
     last := b.last + min count b.wleft
     length_buf := b.length_buf
     pos_le_last := b.pos_le_last.trans (Nat.le_add_right _ _)
     last_le := by
      have h := b.last_le
      unfold wleft
      omega },
    min count b.wleft)

/-- `drain_reset`: drains at most `count` bytes and copies what remains to the
beginning. The second component is how many were drained. -/
def drainReset (b : Buffer N) (count : ℕ) : Buffer N × ℕ :=
  ({ buf := copyDown b.buf (b.pos + min count b.rleft) 0
      (b.last - (b.pos + min count b.rleft))
     pos := 0
     last := b.last - (b.pos + min count b.rleft)
     length_buf := by rw [length_copyDown, b.length_buf]
     pos_le_last := Nat.zero_le _
     last_le := (Nat.sub_le _ _).trans b.last_le },
    min count b.rleft)

theorem unread_fresh (storage : Bytes) (h : storage.length = N) :
    (fresh storage h).unread = [] := slice_zero _ _

theorem unread_reset (b : Buffer N) : b.reset.unread = [] := slice_zero _ _

/-- What is stored beyond the write position is not unread yet. -/
theorem unread_store (b : Buffer N) (src : Bytes) (h : src.length ≤ b.wleft) :
    (b.store src h).unread = b.unread := by
  show slice (b.buf.take b.last ++ src ++ b.buf.drop (b.last + src.length))
    b.pos b.rleft = b.unread
  rw [List.append_assoc, slice_take_last_append]

/-- **`write(count)` appends what the storage holds there.** -/
theorem unread_advance (b : Buffer N) (count : ℕ) :
    (b.advance count).1.unread
      = b.unread ++ slice b.buf b.last (b.advance count).2 := by
  have h := b.pos_le_last
  have hlast : b.last = b.pos + b.rleft := by
    unfold rleft
    omega
  have hr : (b.advance count).1.rleft = b.rleft + (b.advance count).2 := by
    simp only [rleft, advance]
    omega
  rw [unread, hr]
  show slice b.buf b.pos _ = _
  rw [unread, ← slice_append_slice, ← hlast]

/-- **`drain_reset` takes from the front of what is unread.** -/
theorem unread_drainReset (b : Buffer N) (count : ℕ) :
    (b.drainReset count).1.unread = b.unread.drop (b.drainReset count).2 := by
  have h₁ := b.last_le
  have h₂ := b.length_buf
  have h₃ := b.pos_le_last
  have hdrop : b.unread.drop (min count b.rleft)
      = slice b.buf (b.pos + min count b.rleft)
          (b.last - (b.pos + min count b.rleft)) := by
    rw [unread, slice, slice, List.drop_take, List.drop_drop, rleft,
      Nat.sub_sub]
  show slice (copyDown b.buf (b.pos + min count b.rleft) 0
      (b.last - (b.pos + min count b.rleft))) 0
      (b.last - (b.pos + min count b.rleft) - 0)
    = b.unread.drop (min count b.rleft)
  rw [hdrop, Nat.sub_zero]
  refine slice_copyDown (Nat.zero_le _) ?_
  have hmin : min count b.rleft ≤ b.last - b.pos := min_le_right _ _
  omega

/-- After `drain_reset` all space that is not unread is free. -/
theorem wleft_drainReset (b : Buffer N) (count : ℕ) :
    (b.drainReset count).1.wleft = N - (b.drainReset count).1.rleft := rfl

end Buffer

/-! ## The operations together -/

/-- **An operation on a buffer.** -/
inductive BufferOp where
  | write (src : Bytes)
  | writeFull (src : Bytes)
  | writeByte (byte : UInt8)
  | fill (v : UInt8) (count : ℕ)
  /-- Not an operation of the class: bytes that a read from a file stores at
  `last()`, for `write(count)` to take up. -/
  | store (src : Bytes)
  /-- `write(count)`. -/
  | advance (count : ℕ)
  | drain (count : ℕ)
  | drainReset (count : ℕ)
  | reset

namespace BufferOp

variable {N : ℕ}

/-- Where the operation asserts, or does not look, there is room for it. -/
def Fits (b : Buffer N) : BufferOp → Prop
  | .writeFull src => src.length ≤ b.wleft
  | .writeByte _ => 1 ≤ b.wleft
  | .fill _ count => count ≤ b.wleft
  | .store src => src.length ≤ b.wleft
  | .write _ => True
  | .advance _ => True
  | .drain _ => True
  | .drainReset _ => True
  | .reset => True

instance (b : Buffer N) (op : BufferOp) : Decidable (op.Fits b) :=
  match op with
  | .writeFull src => inferInstanceAs (Decidable (src.length ≤ b.wleft))
  | .writeByte _ => inferInstanceAs (Decidable (1 ≤ b.wleft))
  | .fill _ count => inferInstanceAs (Decidable (count ≤ b.wleft))
  | .store src => inferInstanceAs (Decidable (src.length ≤ b.wleft))
  | .write _ => .isTrue trivial
  | .advance _ => .isTrue trivial
  | .drain _ => .isTrue trivial
  | .drainReset _ => .isTrue trivial
  | .reset => .isTrue trivial

/-- The buffer after the operation, and the number of bytes the operation
reports; where it returns nothing, the number it was asked to write. -/
def run (b : Buffer N) : BufferOp → Except Fault (Buffer N × ℕ)
  | .write src => .ok (b.write src)
  | .writeFull src => (b.writeFull src).map (·, src.length)
  | .writeByte byte => (b.writeByte byte).map (·, 1)
  | .fill v count => (b.fill v count).map (·, count)
  | .store src =>
    if h : src.length ≤ b.wleft then .ok (b.store src h, 0)
    else .error .overrun
  | .advance count => .ok (b.advance count)
  | .drain count => .ok (b.drain count, min count b.rleft)
  | .drainReset count => .ok (b.drainReset count)
  | .reset => .ok (b.reset, 0)

/-- **What an operation that reports `n` bytes does to the queue.** -/
def event (b : Buffer N) (n : ℕ) : BufferOp → Fifo.Event UInt8
  | .write src => .put (src.take n)
  | .writeFull src => .put src
  | .writeByte byte => .put [byte]
  | .fill v count => .put (List.replicate count v)
  | .store _ => .put []
  | .advance _ => .put (slice b.buf b.last n)
  | .drain _ => .take n
  | .drainReset _ => .take n
  | .reset => .clear

/-- **What an operation reports**, and what it leaves free. The bytes written
are as many as it reports, and so are the ones drained. -/
def Reports (b b' : Buffer N) (n : ℕ) : BufferOp → Prop
  | .write src => n = min src.length b.wleft ∧ b'.wleft + n = b.wleft
  | .writeFull src => n = src.length ∧ b'.wleft + n = b.wleft
  | .writeByte _ => n = 1 ∧ b'.wleft + n = b.wleft
  | .fill _ count => n = count ∧ b'.wleft + n = b.wleft
  | .store src =>
    n = 0 ∧ b'.wleft = b.wleft ∧ slice b'.buf b'.last src.length = src
  | .advance count => n = min count b.wleft ∧ b'.wleft + n = b.wleft
  | .drain count => n = min count b.rleft ∧ b'.wleft = b.wleft
  | .drainReset count => n = min count b.rleft ∧ b'.wleft = N - b'.rleft
  | .reset => b'.wleft = N

end BufferOp

namespace Buffer

variable {N : ℕ}

/-- What is stored at the write position is found there. -/
theorem slice_store (b : Buffer N) (src : Bytes) (h : src.length ≤ b.wleft) :
    slice (b.store src h).buf b.last src.length = src := by
  show slice (b.buf.take b.last ++ src ++ b.buf.drop (b.last + src.length))
    b.last src.length = src
  rw [List.append_assoc, slice_last_append]

theorem wleft_advance (b : Buffer N) (count : ℕ) :
    (b.advance count).1.wleft + (b.advance count).2 = b.wleft := by
  simp only [wleft, advance]
  omega

end Buffer

namespace BufferOp

variable {N : ℕ}

/-- **Every operation that fits returns**, does to the queue what its event
says, and reports what it did. -/
theorem run_spec (b : Buffer N) (op : BufferOp) (h : op.Fits b) :
    ∃ b' n, op.run b = .ok (b', n)
      ∧ b'.unread = Fifo.step b.unread (op.event b n)
      ∧ op.Reports b b' n := by
  cases op with
  | write src =>
    have happ := b.appends_write src
    have hlen : (src.take (b.write src).2).length = (b.write src).2 := by
      rw [List.length_take, b.write_snd]
      omega
    refine ⟨_, _, rfl, happ.unread_eq, b.write_snd src, ?_⟩
    exact (congrArg _ hlen.symm).trans happ.wleft_eq
  | writeFull src =>
    obtain ⟨b', hrun, happ⟩ := b.writeFull_of_le h
    exact ⟨b', src.length, by rw [run, hrun]; rfl, happ.unread_eq, rfl,
      happ.wleft_eq⟩
  | writeByte byte =>
    obtain ⟨b', hrun, happ⟩ := b.writeByte_of_lt byte h
    exact ⟨b', 1, by rw [run, hrun]; rfl, happ.unread_eq, rfl, happ.wleft_eq⟩
  | fill v count =>
    obtain ⟨b', hrun, happ⟩ := b.fill_of_le v h
    refine ⟨b', count, by rw [run, hrun]; rfl, happ.unread_eq, rfl, ?_⟩
    rw [← happ.wleft_eq, List.length_replicate]
  | store src =>
    refine ⟨b.store src h, 0, dif_pos h, ?_, rfl, rfl, b.slice_store src h⟩
    exact (b.unread_store src h).trans (List.append_nil _).symm
  | advance count =>
    exact ⟨_, _, rfl, b.unread_advance count, rfl, b.wleft_advance count⟩
  | drain count =>
    refine ⟨_, _, rfl, ?_, rfl, rfl⟩
    rw [b.unread_drain]
    exact (b.drop_min_rleft count).symm
  | drainReset count =>
    exact ⟨_, _, rfl, b.unread_drainReset count, rfl,
      b.wleft_drainReset count⟩
  | reset => exact ⟨_, _, rfl, b.unread_reset, rfl⟩

/-- **The number reported is the number of bytes moved**, in or out. -/
theorem length_moved {b b' : Buffer N} {n : ℕ} {op : BufferOp}
    (h : op.Reports b b' n) (hne : op ≠ .reset) :
    (Fifo.enters (op.event b n)).length
      + (Fifo.leaves b.unread (op.event b n)).length = n := by
  cases op with
  | write src =>
    show (src.take n).length + 0 = n
    rw [List.length_take, h.1]
    omega
  | writeFull src => exact h.1.symm
  | writeByte byte => exact h.1.symm
  | fill v count =>
    show (List.replicate count v).length + 0 = n
    rw [List.length_replicate, h.1, Nat.add_zero]
  | store src => exact h.1.symm
  | advance count =>
    have hn : n ≤ b.wleft := h.1.le.trans (min_le_right _ _)
    have h₁ := b.last_le
    have h₂ := b.length_buf
    unfold Buffer.wleft at hn
    show (slice b.buf b.last n).length + 0 = n
    rw [length_slice (by omega), Nat.add_zero]
  | drain count =>
    have hn : n ≤ b.rleft := h.1.le.trans (min_le_right _ _)
    show 0 + (b.unread.take n).length = n
    rw [List.length_take, b.length_unread]
    omega
  | drainReset count =>
    have hn : n ≤ b.rleft := h.1.le.trans (min_le_right _ _)
    show 0 + (b.unread.take n).length = n
    rw [List.length_take, b.length_unread]
    omega
  | reset => exact absurd rfl hne

end BufferOp

/-! ## Runs -/

/-- **A buffer and what has happened to its queue**, in order. -/
structure Logged (N : ℕ) where
  /-- The buffer. -/
  buffer : Buffer N
  /-- The events so far. -/
  log : List (Fifo.Event UInt8)

namespace Logged

variable {N : ℕ}

/-- A new buffer, to which nothing has happened. -/
def fresh (storage : Bytes) (h : storage.length = N) : Logged N :=
  ⟨Buffer.fresh storage h, []⟩

/-- One operation, with its event added to the log. -/
def step (s : Logged N) (op : BufferOp) : Except Fault (Logged N) :=
  match op.run s.buffer with
  | .ok (b, n) => .ok ⟨b, s.log ++ [op.event s.buffer n]⟩
  | .error f => .error f

/-- **The unread bytes are the queue**, when its events are run in turn. -/
def IsQueue (s : Logged N) : Prop := s.buffer.unread = Fifo.run [] s.log

theorem isQueue_fresh (storage : Bytes) (h : storage.length = N) :
    (fresh storage h).IsQueue := Buffer.unread_fresh storage h

/-- An operation that fits returns and keeps the buffer its queue. -/
theorem step_isQueue (s : Logged N) (op : BufferOp) (hs : s.IsQueue)
    (h : op.Fits s.buffer) : ∃ s', step s op = .ok s' ∧ s'.IsQueue := by
  obtain ⟨b', n, hrun, hunread, -⟩ := BufferOp.run_spec s.buffer op h
  refine ⟨⟨b', s.log ++ [op.event s.buffer n]⟩, by rw [step, hrun], ?_⟩
  show b'.unread = Fifo.run [] (s.log ++ [op.event s.buffer n])
  rw [Fifo.run_append, ← hs]
  exact hunread

/-- **A run of operations that fit ends, with a buffer that is its
queue.** -/
theorem exec_isQueue (storage : Bytes) (h : storage.length = N)
    (ops : List BufferOp)
    (hfits : Run.Throughout step (fun s op => op.Fits s.buffer)
      (fresh storage h) ops) :
    ∃ s, Run.exec step (fresh storage h) ops = .ok s ∧ s.IsQueue :=
  Run.exec_ok step_isQueue (isQueue_fresh storage h) hfits

end Logged

/-- **A buffer is a bounded first-in-first-out queue.** Whatever its storage
holds at first, after any operations that fit where they have to, the
positions are in order and the unread bytes are what the operations have put
in and not yet taken out, in order; and the next operation, if it fits,
appends or removes as many bytes as it reports and touches no other. -/
theorem buffer_is_queue {N : ℕ} (storage : Bytes) (hN : storage.length = N)
    (ops : List BufferOp)
    (hfits : Run.Throughout Logged.step (fun s op => op.Fits s.buffer)
      (Logged.fresh storage hN) ops) :
    ∃ s, Run.exec Logged.step (Logged.fresh storage hN) ops = .ok s
      ∧ s.buffer.pos ≤ s.buffer.last ∧ s.buffer.last ≤ N
      ∧ s.buffer.buf.length = N
      ∧ s.buffer.unread = Fifo.run [] s.log
      ∧ Fifo.taken [] s.log ++ s.buffer.unread = Fifo.puts s.log
      ∧ s.buffer.unread.length = s.buffer.last - s.buffer.pos
      ∧ ∀ op : BufferOp, op.Fits s.buffer →
        ∃ b n, op.run s.buffer = .ok (b, n)
          ∧ b.unread = Fifo.step s.buffer.unread (op.event s.buffer n)
          ∧ op.Reports s.buffer b n
          ∧ (op ≠ .reset →
            (Fifo.enters (op.event s.buffer n)).length
              + (Fifo.leaves s.buffer.unread (op.event s.buffer n)).length
              = n) := by
  obtain ⟨s, hrun, hqueue⟩ := Logged.exec_isQueue storage hN ops hfits
  refine ⟨s, hrun, s.buffer.pos_le_last, s.buffer.last_le,
    s.buffer.length_buf, hqueue, ?_, s.buffer.length_unread, ?_⟩
  · rw [hqueue, Fifo.taken_append_run, List.nil_append]
  · intro op hop
    obtain ⟨b, n, hop, hunread, hreports⟩ := BufferOp.run_spec s.buffer op hop
    exact ⟨b, n, hop, hunread, hreports,
      fun hne => BufferOp.length_moved hreports hne⟩

/-- Two bytes in, one out, two in, and one out with the rest copied down over
itself, which makes room for one more. -/
theorem buffer_is_queue_four :
    ∃ s, Run.exec Logged.step (Logged.fresh [0, 0, 0, 0] rfl)
        [.fill 7 2, .drain 1, .writeFull [8, 9], .drainReset 1,
          .writeByte 1] = .ok s
      ∧ s.buffer.unread = [8, 9, 1]
      ∧ s.buffer.unread = Fifo.run [] s.log := by
  obtain ⟨s, hrun, -, -, -, hqueue, -⟩ := buffer_is_queue (N := 4)
    [0, 0, 0, 0] rfl [.fill 7 2, .drain 1, .writeFull [8, 9], .drainReset 1,
      .writeByte 1] (by decide)
  have hunread : (Run.exec Logged.step (Logged.fresh [0, 0, 0, 0] rfl)
      [.fill 7 2, .drain 1, .writeFull [8, 9], .drainReset 1,
        .writeByte 1]).map (fun s => s.buffer.unread) = .ok [8, 9, 1] := by
    decide
  rw [hrun] at hunread
  exact ⟨s, hrun, Except.ok.inj hunread, hqueue⟩
