import Harmony.StringView

/-!
# The write buffer

`Buffer<N>` is a thin wrapper around an array of `N` bytes with two
positions: `[pos, last)` is what is still to be read, `[last, N)` is free.
Every byte of every response goes through one of these.

The two positions are ordered by construction, so a buffer whose positions
cross cannot be written down. What the operations do is stated once, as
`Appends`: the unread bytes grow at the end by exactly the bytes written,
and the free space shrinks by as much.
-/

/-- **A buffer of `N` bytes** with its read and write positions. -/
structure Buffer (N : ℕ) where
  /-- The storage. -/
  buf : Bytes
  /-- The first unread byte. -/
  pos : ℕ
  /-- One past the last unread byte. -/
  last : ℕ
  length_buf : buf.length = N
  pos_le_last : pos ≤ last
  last_le : last ≤ N

namespace Buffer

variable {N : ℕ}

/-- The buffer a session starts with. -/
def empty (N : ℕ) : Buffer N where
  buf := List.replicate N 0
  pos := 0
  last := 0
  length_buf := List.length_replicate
  pos_le_last := le_rfl
  last_le := Nat.zero_le N

/-- Returns the number of bytes left to read. -/
def rleft (b : Buffer N) : ℕ := b.last - b.pos

/-- Returns the number of bytes this buffer can store. -/
def wleft (b : Buffer N) : ℕ := N - b.last

/-- The bytes between the read and the write position. -/
def unread (b : Buffer N) : Bytes := slice b.buf b.pos b.rleft

theorem length_unread (b : Buffer N) : b.unread.length = b.rleft := by
  have h₁ := b.pos_le_last
  have h₂ := b.last_le
  have h₃ := b.length_buf
  exact length_slice (by unfold rleft; omega)

/-- Copies `src` to the write position, where there is room for it. -/
def copyN (b : Buffer N) (src : Bytes) (h : src.length ≤ b.wleft) :
    Buffer N where
  buf := b.buf.take b.last ++ src ++ b.buf.drop (b.last + src.length)
  pos := b.pos
  last := b.last + src.length
  length_buf := by
    have h₁ := b.last_le
    have h₂ := b.length_buf
    simp only [wleft] at h
    simp only [List.length_append, List.length_take, List.length_drop]
    omega
  pos_le_last := b.pos_le_last.trans (Nat.le_add_right _ _)
  last_le := by
    have h₁ := b.last_le
    simp only [wleft] at h
    omega

/-- Makes sure there is space for the bytes of `src` and writes them. -/
def writeFull (b : Buffer N) (src : Bytes) : Except Fault (Buffer N) :=
  if h : src.length ≤ b.wleft then .ok (b.copyN src h) else .error .assertion

/-- Writes one byte, without looking whether there is room. -/
def writeByte (b : Buffer N) (byte : UInt8) : Except Fault (Buffer N) :=
  if h : [byte].length ≤ b.wleft then .ok (b.copyN [byte] h)
  else .error .overrun

/-- `fill`: writes `count` times the byte `v`. -/
def fill (b : Buffer N) (v : UInt8) (count : ℕ) : Except Fault (Buffer N) :=
  b.writeFull (List.replicate count v)

/-- Writes as much of `src` as there is room for. The second component is how
much that was. -/
def write (b : Buffer N) (src : Bytes) : Buffer N × ℕ :=
  (b.copyN (src.take (min src.length b.wleft)) (by
      rw [List.length_take]
      omega),
    min src.length b.wleft)

/-- A read from a file to the write position, and the `write(n)` after it. -/
def readInto (b : Buffer N) (src : Bytes) : Except Fault (Buffer N) :=
  if h : src.length ≤ b.wleft then .ok (b.copyN src h) else .error .overrun

/-- Drains at most `count` bytes from the start of the buffer. -/
def drain (b : Buffer N) (count : ℕ) : Buffer N where
  buf := b.buf
  pos := b.pos + min count b.rleft
  last := b.last
  length_buf := b.length_buf
  pos_le_last := by
    have h := b.pos_le_last
    unfold rleft
    omega
  last_le := b.last_le

/-- Makes both positions point to the beginning. -/
def reset (b : Buffer N) : Buffer N where
  buf := b.buf
  pos := 0
  last := 0
  length_buf := b.length_buf
  pos_le_last := le_rfl
  last_le := Nat.zero_le N

/-! ## What a write does -/

/-- **A write appends**: the unread bytes grow by `src` at the end, and the
free space shrinks by the length of `src`. -/
structure Appends (b b' : Buffer N) (src : Bytes) : Prop where
  unread_eq : b'.unread = b.unread ++ src
  wleft_eq : b'.wleft + src.length = b.wleft

theorem Appends.refl (b : Buffer N) : Appends b b [] :=
  ⟨(List.append_nil _).symm, rfl⟩

/-- Consecutive writes append the concatenation. -/
theorem Appends.trans {b b' b'' : Buffer N} {src src' : Bytes}
    (h : Appends b b' src) (h' : Appends b' b'' src') :
    Appends b b'' (src ++ src') := by
  refine ⟨?_, ?_⟩
  · rw [h'.unread_eq, h.unread_eq, List.append_assoc]
  · rw [List.length_append, ← h.wleft_eq, ← h'.wleft_eq]
    omega

/-- What is stored ends at the write position. -/
theorem length_take_last (b : Buffer N) : (b.buf.take b.last).length = b.last := by
  rw [List.length_take, b.length_buf]
  exact min_eq_left b.last_le

/-- What is stored behind the write position is not unread. -/
theorem slice_take_last_append (b : Buffer N) (t : Bytes) :
    slice (b.buf.take b.last ++ t) b.pos b.rleft = b.unread := by
  have hcut : ∀ t : Bytes, slice (b.buf.take b.last ++ t) b.pos b.rleft
      = slice (b.buf.take b.last) b.pos b.rleft := by
    intro t
    rw [slice_append, length_take_last, show b.rleft - (b.last - b.pos) = 0 from
      Nat.sub_self _, slice_zero, List.append_nil]
  rw [hcut t, ← hcut (b.buf.drop b.last), List.take_append_drop, unread]

/-- What is stored at the write position is found there. -/
theorem slice_last_append (b : Buffer N) (src t : Bytes) :
    slice (b.buf.take b.last ++ (src ++ t)) b.last src.length = src := by
  rw [slice_append, length_take_last, slice_of_le _ (by rw [length_take_last]),
    List.nil_append, Nat.sub_self, Nat.sub_zero, slice_append, slice_length,
    Nat.sub_zero, Nat.sub_self, slice_zero, List.append_nil]

/-- The write position moves over exactly the bytes copied. -/
theorem appends_copyN (b : Buffer N) (src : Bytes)
    (h : src.length ≤ b.wleft) : Appends b (b.copyN src h) src := by
  have h₁ := b.pos_le_last
  have h₂ := b.last_le
  refine ⟨?_, ?_⟩
  · have hr : (b.copyN src h).rleft = b.rleft + src.length := by
      simp only [rleft, copyN]
      omega
    have hlast : b.pos + b.rleft = b.last := by
      unfold rleft
      omega
    rw [unread, hr]
    show slice (b.buf.take b.last ++ src ++ b.buf.drop (b.last + src.length))
      b.pos (b.rleft + src.length) = b.unread ++ src
    rw [List.append_assoc, ← slice_append_slice, slice_take_last_append, hlast,
      slice_last_append]
  · simp only [wleft, copyN] at h ⊢
    omega

/-- **Where there is room, `write_full` appends.** -/
theorem writeFull_of_le (b : Buffer N) {src : Bytes}
    (h : src.length ≤ b.wleft) :
    ∃ b', b.writeFull src = .ok b' ∧ Appends b b' src :=
  ⟨b.copyN src h, dif_pos h, appends_copyN b src h⟩

/-- **Where there is room, `write_byte` appends its byte.** -/
theorem writeByte_of_lt (b : Buffer N) (byte : UInt8) (h : 0 < b.wleft) :
    ∃ b', b.writeByte byte = .ok b' ∧ Appends b b' [byte] :=
  ⟨b.copyN [byte] h, dif_pos h, appends_copyN b [byte] h⟩

/-- **Where there is room, `fill` appends.** -/
theorem fill_of_le (b : Buffer N) (v : UInt8) {count : ℕ}
    (h : count ≤ b.wleft) :
    ∃ b', b.fill v count = .ok b' ∧ Appends b b' (List.replicate count v) :=
  b.writeFull_of_le (by rw [List.length_replicate]; exact h)

/-- **Where there is room, a read from a file appends.** -/
theorem readInto_of_le (b : Buffer N) {src : Bytes} (h : src.length ≤ b.wleft) :
    ∃ b', b.readInto src = .ok b' ∧ Appends b b' src :=
  ⟨b.copyN src h, dif_pos h, appends_copyN b src h⟩

/-- **`write` appends what there is room for.** -/
theorem appends_write (b : Buffer N) (src : Bytes) :
    Appends b (b.write src).1 (src.take (b.write src).2) :=
  appends_copyN b (src.take (min src.length b.wleft)) (by
    rw [List.length_take]
    omega)

theorem write_snd (b : Buffer N) (src : Bytes) :
    (b.write src).2 = min src.length b.wleft := rfl

/-- A queue that gives as many as there are gives what is asked for. -/
theorem drop_min_rleft (b : Buffer N) (count : ℕ) :
    b.unread.drop (min count b.rleft) = b.unread.drop count := by
  rcases le_total count b.rleft with hle | hle
  · rw [min_eq_left hle]
  · rw [min_eq_right hle,
      List.drop_eq_nil_of_le (by rw [length_unread]),
      List.drop_eq_nil_of_le (by rw [length_unread]; exact hle)]

/-- Draining takes from the front of what is unread. -/
theorem unread_drain (b : Buffer N) (count : ℕ) :
    (b.drain count).unread = b.unread.drop count := by
  have h := b.pos_le_last
  have hr : (b.drain count).rleft = b.rleft - min count b.rleft := by
    simp only [rleft, drain]
    omega
  rw [← drop_min_rleft, unread, hr]
  show slice b.buf (b.pos + min count b.rleft) _ = _
  rw [unread, slice, slice, List.drop_take, List.drop_drop]

/-- Nothing is left to read exactly if nothing is unread. -/
theorem rleft_eq_zero_iff (b : Buffer N) : b.rleft = 0 ↔ b.unread = [] := by
  rw [← length_unread, List.length_eq_zero_iff]

/-- After a write that appends something, the buffer has changed. -/
theorem Appends.ne {b b' : Buffer N} {src : Bytes} (h : Appends b b' src)
    (hsrc : src ≠ []) : b' ≠ b := by
  rintro rfl
  have hlen := h.wleft_eq
  have hpos := List.length_pos_of_ne_nil hsrc
  omega

end Buffer
