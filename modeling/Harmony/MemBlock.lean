import Harmony.HttpDate
import Harmony.JsonWriter
import Harmony.PercentDecode
import Mathlib.Data.List.Forall2

/-!
# The memory of a stream

Texts that a stream makes for itself, the decoded path and query, the length of
a body, the date of a file, are put into a block of memory that is part of the
stream, one behind the other, and what has no room there gets memory of its own.
Nobody is told how much room there is: every function asks for as many bytes as
it is going to need, and then writes through a bare pointer. The views that are
returned are held until the stream is gone.

So each size has to be right, or else a text runs into the one behind it, or
off the block. `MemBlock.texts_of_run` says that this never happens: after any
calls, all the views still read what they should, the last of them and the
first.
-/

open HttpDate

/-! ## Writing through a pointer -/

/-- **What writes through a pointer**: given the memory and where the pointer is,
the memory that it leaves and where it has stopped. -/
structure PointerWriter where
  run : Bytes → ℕ → Except Fault (Bytes × ℕ)
  length_run : ∀ {out out' : Bytes} {p n : ℕ},
    run out p = .ok (out', n) → out'.length = out.length

theorem length_writeAt {out out' : Bytes} {p : ℕ} {b : UInt8}
    (h : writeAt out p b = .ok out') : out'.length = out.length := by
  unfold writeAt at h
  split_ifs at h
  cases h
  exact List.length_set

/-- Bytes, one after the other. -/
def writeAll (out : Bytes) (p : ℕ) : Bytes → Except Fault (Bytes × ℕ)
  | [] => .ok (out, p)
  | b :: bs => do
    let out ← writeAt out p b
    writeAll out (p + 1) bs

theorem length_writeAll {bs out out' : Bytes} {p n : ℕ}
    (h : writeAll out p bs = .ok (out', n)) : out'.length = out.length := by
  induction bs generalizing out p with
  | nil =>
    cases h
    rfl
  | cons b bs ih =>
    obtain ⟨out₁, hwrite, hrest⟩ := Except.exists_of_bind_eq_ok h
    exact (ih hrest).trans (length_writeAt hwrite)

theorem length_percentDecodeTo {src out out' : Bytes} {p n : ℕ}
    (h : percentDecodeTo out p src = .ok (out', n)) : out'.length = out.length := by
  -- a byte is written, and then the rest of the text
  have hnext : ∀ {b : UInt8} {rest out : Bytes} {p : ℕ},
      (∀ {out : Bytes} {p : ℕ}, percentDecodeTo out p rest = .ok (out', n) →
        out'.length = out.length) →
      (do
        let out ← writeAt out p b
        percentDecodeTo out (p + 1) rest) = .ok (out', n) →
      out'.length = out.length := by
    intro b rest out p ih h
    obtain ⟨out₁, hwrite, hrest⟩ := Except.exists_of_bind_eq_ok h
    exact (ih hrest).trans (length_writeAt hwrite)
  induction src using percentDecode_induction generalizing out p with
  | nil =>
    obtain ⟨out₁, hwrite, hrest⟩ := Except.exists_of_bind_eq_ok h
    cases hrest
    exact length_writeAt hwrite
  | escape a b rest ih =>
    rw [percentDecodeTo_escape] at h
    exact hnext ih h
  | cut rest hrest ih =>
    rw [percentDecodeTo_cut rest _ _ hrest] at h
    exact ih h
  | plus rest ih =>
    rw [percentDecodeTo_plus] at h
    exact hnext ih h
  | plain c rest hpercent hplus ih =>
    rw [percentDecodeTo_plain rest _ _ hpercent hplus] at h
    exact hnext ih h

namespace PointerWriter

/-- `std::copy_n`, and whatever else writes known bytes in order. -/
def all (bs : Bytes) : PointerWriter :=
  ⟨fun out p => writeAll out p bs, length_writeAll⟩

/-- `percent_decode` into a buffer. -/
def decode (src : Bytes) : PointerWriter :=
  ⟨fun out p => percentDecodeTo out p src, length_percentDecodeTo⟩

/-- `snprintf` into `size` bytes: what does not fit is cut off, and there is a
zero behind it. -/
def snprintf (size : ℕ) (text : Bytes) : PointerWriter :=
  all (text.take (size - 1) ++ [0])

/-- **It writes so much and no more**: the bytes go where the pointer is, and
what is in front and behind stays; it stops `n` bytes on. -/
def Writes (w : PointerWriter) (written : Bytes) (n : ℕ) : Prop :=
  ∀ done room : Bytes, written.length ≤ room.length →
    w.run (done ++ room) done.length
      = .ok (done ++ written ++ room.drop written.length, done.length + n)

theorem all_writes (bs : Bytes) : (all bs).Writes bs bs.length := by
  intro done room hroom
  show writeAll (done ++ room) done.length bs = _
  induction bs generalizing done room with
  | nil => rw [writeAll, List.append_nil]; rfl
  | cons b bs ih =>
    cases room with
    | nil => exact absurd hroom (Nat.not_succ_le_zero _)
    | cons x room =>
      have hrest := ih (done ++ [b]) room (Nat.le_of_succ_le_succ hroom)
      rw [List.length_append, List.length_singleton] at hrest
      rw [writeAll, writeAt_append, Except.ok_bind, hrest, List.append_assoc done,
        List.singleton_append, Nat.add_assoc, Nat.add_comm 1, List.length_cons,
        List.drop_succ_cons]

/-- **Decoding stops at its zero.** -/
theorem decode_writes (src : Bytes) : (decode src).Writes
    (percentDecode src ++ [0]) (percentDecode src).length := by
  intro done room hroom
  rw [List.length_append, List.length_singleton] at hroom
  show percentDecodeTo (done ++ room) done.length src = _
  rw [percentDecodeTo_append src done room hroom, List.length_append,
    List.length_singleton, ← List.append_assoc, List.append_assoc _ [0]]
  rfl

/-- **A text is printed whole** if there is room for it and a zero. -/
theorem snprintf_writes {size : ℕ} {text : Bytes} (h : text.length < size) :
    (snprintf size text).Writes (text ++ [0]) (text.length + 1) := by
  have hall := all_writes (text ++ [0])
  rw [List.length_append, List.length_singleton] at hall
  unfold snprintf
  rw [List.take_of_length_le (by omega)]
  exact hall

end PointerWriter

/-! ## The block -/

/-- **`MemBlock`**: what has been handed out of the block, the block, and what was
allocated apart from it. -/
structure MemBlock (N : ℕ) where
  pos : ℕ
  data : Block N
  /-- The additional memory, each piece with what is in it. -/
  add : List Bytes
  pos_le : pos ≤ N

namespace MemBlock

variable {N : ℕ}

/-- The memory that `malloc` hands out for a size. It is not initialised. -/
abbrev Malloc := (n : ℕ) → Block n

/-- A pointer into the block, or to the beginning of a piece of its own. -/
inductive Pointer where
  | inside (p : ℕ)
  | apart (i : ℕ)
  deriving DecidableEq, Repr

/-- **A string view** of memory. -/
structure View where
  pointer : Pointer
  length : ℕ
  deriving DecidableEq, Repr

/-- The constructor. The block is not initialised. -/
def fresh (data : Block N) : MemBlock N := ⟨0, data, [], Nat.zero_le N⟩

/-- **`MemBlock::alloc`.** -/
def alloc (m : MemBlock N) (malloc : Malloc) (n : ℕ) : Pointer × MemBlock N :=
  if h : n + m.pos ≤ N then
    (.inside m.pos, { m with
      pos := m.pos + n
      pos_le := by omega })
  else (.apart m.add.length, { m with add := m.add ++ [(malloc n).val] })

/-- Something is written through a pointer. What is behind the end of the block,
or of the piece, must not be touched. -/
def write (m : MemBlock N) (w : PointerWriter) : Pointer → Except Fault (ℕ × MemBlock N)
  | .inside p =>
    match h : w.run m.data.val p with
    | .ok (out, n) =>
      .ok (n - p, { m with data := ⟨out, (w.length_run h).trans m.data.property⟩ })
    | .error e => .error e
  | .apart i =>
    match m.add[i]? with
    | some out => do
      let (out, n) ← w.run out 0
      .ok (n, { m with add := m.add.set i out })
    | none => .error .overrun

/-- The memory from a pointer on. -/
def behind (m : MemBlock N) : Pointer → Bytes
  | .inside p => m.data.val.drop p
  | .apart i => m.add.getD i []

/-- What is read through a view. -/
def read (m : MemBlock N) (v : View) : Bytes := (m.behind v.pointer).take v.length

/-- A string view of a string of C: the bytes up to a zero, which has to be
there. -/
def viewOf (m : MemBlock N) (p : Pointer) : Except Fault View :=
  if 0 ∈ m.behind p then .ok ⟨p, (cStr (m.behind p)).length⟩ else .error .overrun

/-- **`percent_decode`** of a stream. -/
protected def percentDecode (m : MemBlock N) (malloc : Malloc) (src : Bytes) :
    Except Fault (View × MemBlock N) := do
  let (out, m) := m.alloc malloc (src.length + 1)
  let (n, m) ← m.write (.decode src) out
  .ok (⟨out, n⟩, m)

/-- How much room the digits of a number need, by the loop of `to_string`. -/
def toStringSize (size : ℕ) (n : ℤ) : ℕ :=
  if n = 0 then size else toStringSize (size + 1) (n.tdiv 10)
termination_by n.natAbs
decreasing_by
  rw [Int.natAbs_tdiv]
  exact Nat.div_lt_self (Int.natAbs_pos.mpr ‹_›) (by decide)

/-- **`to_string`**, of either kind of integer. -/
protected def toString (m : MemBlock N) (malloc : Malloc) (n : ℤ) :
    Except Fault (View × MemBlock N) := do
  let size := toStringSize 2 n
  let (out, m) := m.alloc malloc size
  let (_, m) ← m.write (.snprintf size (bytes (Int.repr n))) out
  let v ← m.viewOf out
  .ok (v, m)

/-- **`http_date`** of a stream: a zero is put there in case that no date is
written. -/
protected def httpDate (m : MemBlock N) (malloc : Malloc) (t : ℤ) :
    Except Fault (View × MemBlock N) := do
  let (out, m) := m.alloc malloc 29
  let (_, m) ← m.write (.all [0]) out
  let (_, m) ← m.write (.all ((httpDate t).getD [])) out
  .ok (⟨out, 29⟩, m)

/-- **A text that a stream makes for itself.** -/
inductive Text where
  | decoded (src : Bytes)
  | signed (n : Int64)
  | unsigned (n : UInt64)
  | date (t : ℤ)

/-- The function that makes it. -/
def put (m : MemBlock N) (malloc : Malloc) : Text → Except Fault (View × MemBlock N)
  | .decoded src => m.percentDecode malloc src
  | .signed n => m.toString malloc n.toInt
  | .unsigned n => m.toString malloc n.toNat
  | .date t => m.httpDate malloc t

/-- What it should read. There are times that have no date. -/
def Text.text : Text → Option Bytes
  | .decoded src => some (percentDecode src)
  | .signed n => some (bytes (Int.repr n.toInt))
  | .unsigned n => some (bytes (Nat.repr n.toNat))
  | .date t => httpDate t

/-! ## What is handed out stays -/

/-- **A view is inside** what was handed out. -/
def Within (m : MemBlock N) (v : View) : Prop :=
  match v.pointer with
  | .inside p => p + v.length ≤ m.pos
  | .apart i => i < m.add.length

/-- **Memory that was handed out is kept** from one time to a later one. -/
structure Keeps (m m' : MemBlock N) : Prop where
  pos : m.pos ≤ m'.pos
  data : m'.data.val.take m.pos = m.data.val.take m.pos
  add : m.add <+: m'.add

theorem Keeps.refl (m : MemBlock N) : m.Keeps m := ⟨le_rfl, rfl, List.prefix_rfl⟩

theorem Keeps.trans {m₁ m₂ m₃ : MemBlock N} (h : m₁.Keeps m₂) (h' : m₂.Keeps m₃) :
    m₁.Keeps m₃ where
  pos := h.pos.trans h'.pos
  data := by
    rw [← h.data, ← min_eq_left h.pos, ← List.take_take, ← List.take_take, h'.data]
  add := h.add.trans h'.add

/-- A view stays inside. -/
theorem Keeps.within {m m' : MemBlock N} (h : m.Keeps m') {v : View}
    (hv : m.Within v) : m'.Within v := by
  obtain ⟨pointer, length⟩ := v
  cases pointer with
  | inside p => exact hv.trans h.pos
  | apart i => exact lt_of_lt_of_le hv h.add.length_le

/-- **A view reads the same** as long as the memory is kept. -/
theorem Keeps.read_eq {m m' : MemBlock N} (h : m.Keeps m') {v : View}
    (hv : m.Within v) : m'.read v = m.read v := by
  obtain ⟨pointer, length⟩ := v
  cases pointer with
  | inside p =>
    have hle : p + length ≤ m.pos := hv
    have hslice : ∀ out : Bytes, (out.drop p).take length
        = ((out.take m.pos).drop p).take length := by
      intro out
      rw [List.drop_take, List.take_take, min_eq_left (by omega)]
    show (m'.data.val.drop p).take length = (m.data.val.drop p).take length
    rw [hslice, h.data, ← hslice]
  | apart i =>
    have hlt : i < m.add.length := hv
    show (m'.add.getD i []).take length = (m.add.getD i []).take length
    obtain ⟨more, hmore⟩ := h.add
    rw [← hmore, List.getD_eq_getElem?_getD, List.getElem?_append_left hlt,
      ← List.getD_eq_getElem?_getD]

/-! ## Each call gets what it writes -/

/-- **The memory that was asked for last**, of `n` bytes: the end of what was
handed out of the block, or the last piece. All else is as it was before. -/
inductive Last (m : MemBlock N) (n : ℕ) (m' : MemBlock N) : Pointer → Prop
  | inside (pos : m'.pos = m.pos + n) (add : m'.add = m.add)
      (data : m'.data.val.take m.pos = m.data.val.take m.pos) :
    Last m n m' (.inside m.pos)
  | apart {out : Bytes} (pos : m'.pos = m.pos) (data : m'.data = m.data)
      (add : m'.add = m.add ++ [out]) (length : out.length = n) :
    Last m n m' (.apart m.add.length)

theorem last_alloc (m : MemBlock N) (malloc : Malloc) (n : ℕ) :
    Last m n (m.alloc malloc n).2 (m.alloc malloc n).1 := by
  unfold alloc
  split_ifs with hroom
  · exact .inside rfl rfl rfl
  · exact .apart rfl rfl rfl (malloc n).property

theorem Last.keeps {m m' : MemBlock N} {n : ℕ} {p : Pointer} (h : Last m n m' p) :
    m.Keeps m' := by
  cases h with
  | inside pos add data =>
    exact ⟨pos ▸ Nat.le_add_right _ _, data, add ▸ List.prefix_rfl⟩
  | apart pos data add length =>
    exact ⟨pos.ge, by rw [data], add ▸ List.prefix_append _ _⟩

theorem Last.within {m m' : MemBlock N} {n k : ℕ} {p : Pointer}
    (h : Last m n m' p) (hk : k ≤ n) : m'.Within ⟨p, k⟩ := by
  cases h with
  | inside pos add data =>
    show m.pos + k ≤ m'.pos
    rw [pos]
    exact Nat.add_le_add_left hk _
  | apart pos data add length =>
    show m.add.length < m'.add.length
    rw [add, List.length_append]
    exact Nat.lt_succ_self _

/-- **It can be written to**, up to its end: what is written is there, and all
else still is as it was. -/
theorem Last.write {m m' : MemBlock N} {n k : ℕ} {p : Pointer}
    (h : Last m n m' p) {w : PointerWriter} {written : Bytes} (hw : w.Writes written k)
    (hle : written.length ≤ n) :
    ∃ m'', m'.write w p = .ok (k, m'') ∧ Last m n m'' p
      ∧ written <+: m''.behind p := by
  cases h with
  | inside pos add data =>
    have hlen := m'.data.property
    have hpos := m'.pos_le
    have hrun := hw (m'.data.val.take m.pos) (m'.data.val.drop m.pos) (by
      rw [List.length_drop, hlen]
      omega)
    rw [List.take_append_drop, List.length_take, min_eq_left (by omega),
      List.append_assoc] at hrun
    have htake : (m'.data.val.take m.pos).length = m.pos := by
      rw [List.length_take]
      omega
    generalize hout : m'.data.val.take m.pos ++ (written
      ++ (m'.data.val.drop m.pos).drop written.length) = out at hrun
    refine ⟨{ m' with data := ⟨out, (w.length_run hrun).trans hlen⟩ }, ?_,
      .inside pos add ?_, ?_⟩
    · rw [MemBlock.write]
      split
      next hrun' =>
        cases hrun.symm.trans hrun'
        rw [Nat.add_sub_cancel_left]
      next hrun' => cases hrun.symm.trans hrun'
    · show out.take m.pos = _
      rw [← hout, List.take_left' htake, data]
    · show written <+: out.drop m.pos
      rw [← hout, List.drop_left' htake]
      exact List.prefix_append _ _
  | @apart out pos data add length =>
    have hrun := hw [] out (hle.trans length.ge)
    rw [List.nil_append, List.nil_append, List.length_nil, Nat.zero_add] at hrun
    have hget : m'.add[m.add.length]? = some out := by
      rw [add, List.getElem?_concat_length]
    refine ⟨{ m' with
      add := m'.add.set m.add.length (written ++ out.drop written.length) }, ?_,
      .apart pos data ?_ ((w.length_run hrun).trans length), ?_⟩
    · rw [MemBlock.write, hget]
      dsimp only
      rw [hrun]
      rfl
    · show m'.add.set m.add.length _ = _
      rw [add, List.set_append_right _ _ le_rfl, Nat.sub_self, List.set_cons_zero]
    · show written <+: (m'.add.set m.add.length _).getD m.add.length []
      rw [add, List.set_append_right _ _ le_rfl, Nat.sub_self, List.set_cons_zero,
        List.getD_eq_getElem?_getD, List.getElem?_concat_length]
      exact List.prefix_append _ _

/-- The text of an integer. -/
theorem bytes_repr_eq (n : ℤ) : bytes (Int.repr n)
    = (if n < 0 then [45] else []) ++ Json.decimal n.natAbs := by
  rw [JsonWriter.bytes_repr]
  show (if decide (n < 0) = true then [45] else [])
    ++ (Json.decimal n.natAbs ++ ([] ++ [])) = _
  rw [List.append_nil, List.append_nil]
  by_cases hneg : n < 0
  · rw [if_pos hneg, if_pos (decide_eq_true hneg)]
  · rw [if_neg hneg, if_neg (by rw [decide_eq_true_eq]; exact hneg)]

/-- It is a string of C. -/
theorem zero_notMem_repr (n : ℤ) : 0 ∉ bytes (Int.repr n) := by
  rw [bytes_repr_eq, List.mem_append, not_or]
  refine ⟨?_, fun h => absurd ((Json.decimal_spec _).1 0 h) (by decide)⟩
  split_ifs
  · decide
  · exact List.not_mem_nil

/-- The loop of `to_string` counts digits. -/
theorem toStringSize_eq (size : ℕ) {n : ℤ} (hn : n ≠ 0) :
    toStringSize size n = size + (Json.decimal n.natAbs).length := by
  induction hk : n.natAbs using Nat.strong_induction_on generalizing size n with
  | h k ih =>
    have habs : (n.tdiv 10).natAbs = k / 10 := by
      rw [Int.natAbs_tdiv, hk]
      rfl
    rw [toStringSize, if_neg hn]
    by_cases hlt : k < 10
    · have hzero : n.tdiv 10 = 0 :=
        Int.natAbs_eq_zero.mp (habs.trans (Nat.div_eq_of_lt hlt))
      rw [hzero, toStringSize, if_pos rfl, Json.decimal_of_lt hlt]
      rfl
    · have hle := Nat.le_of_not_lt hlt
      have hne : n.tdiv 10 ≠ 0 := by
        rw [← Int.natAbs_ne_zero, habs]
        omega
      rw [ih (k / 10) (Nat.div_lt_self (by omega) (by decide)) _ hne habs,
        Json.decimal_of_le hle, List.length_append, List.length_singleton]
      omega

/-- **There is room for the digits of a number**, its sign, and a zero. -/
theorem length_repr_lt (n : ℤ) : (bytes (Int.repr n)).length < toStringSize 2 n := by
  by_cases hn : n = 0
  · subst hn
    rw [toStringSize]
    decide
  · rw [toStringSize_eq 2 hn, bytes_repr_eq, List.length_append]
    split_ifs
    · rw [List.length_singleton]
      omega
    · rw [List.length_nil]
      omega

/-- **A date has twenty-nine characters**, whenever there is one. -/
theorem length_httpDate {t : ℤ} {s : Bytes} (h : httpDate t = some s) :
    s.length = 29 := by
  obtain ⟨tm, htm, rfl⟩ := Option.map_eq_some_iff.mp h
  unfold gmtime at htm
  dsimp only at htm
  split_ifs at htm
  cases htm
  have hmonth := (Calendar.ofDays epoch (t / 86400)).month_lt
  rw [Tm.text_eq]
  simp only [List.length_append, List.length_cons, List.length_nil,
    length_writeUint]
  rw [length_names.1 _ (by omega), length_names.2 _ (by omega)]

/-! ## Each call -/

/-- **What a call yields**: a view inside what was handed out, and nothing that
was there before is touched. -/
structure Puts (m : MemBlock N) (v : View) (m' : MemBlock N) (text : Option Bytes) :
    Prop where
  keeps : m.Keeps m'
  within : m'.Within v
  reads : ∀ s ∈ text, m'.read v = s

/-- Where nothing is said about a text, it is whatever is there. -/
theorem Puts.getD {m m' : MemBlock N} {v : View} {text : Option Bytes}
    (h : m.Puts v m' text) : m.Puts v m' (some (text.getD (m'.read v))) where
  keeps := h.keeps
  within := h.within
  reads := by
    rintro s ⟨⟩
    cases text with
    | none => rfl
    | some s => exact h.reads s rfl

/-- What was written is read back. -/
theorem read_eq_of_append {m : MemBlock N} {p : Pointer} {s more : Bytes}
    (h : s ++ more <+: m.behind p) : m.read ⟨p, s.length⟩ = s := by
  obtain ⟨rest, hrest⟩ := h
  show (m.behind p).take s.length = s
  rw [← hrest, List.append_assoc, List.take_left]

/-- A string of C that was written is viewed without its zero. -/
theorem viewOf_eq_of_append {m : MemBlock N} {p : Pointer} {s : Bytes} (hs : 0 ∉ s)
    (h : s ++ [0] <+: m.behind p) : m.viewOf p = .ok ⟨p, s.length⟩ := by
  obtain ⟨rest, hrest⟩ := h
  have hall : ∀ c ∈ s, decide (c ≠ 0) = true := fun c hc =>
    decide_eq_true fun hzero => hs (hzero ▸ hc)
  have hstr : cStr (s ++ [0] ++ rest) = s := by
    unfold cStr
    rw [List.append_assoc, List.takeWhile_append_of_pos hall]
    exact List.append_nil s
  rw [viewOf, ← hrest, if_pos (by simp), hstr]

theorem percentDecode_puts (m : MemBlock N) (malloc : Malloc) (src : Bytes) :
    ∃ v m', m.percentDecode malloc src = .ok (v, m')
      ∧ m.Puts v m' (some (percentDecode src)) := by
  have hle := length_percentDecode_le src
  obtain ⟨m', hwrite, hlast, hwritten⟩ := (m.last_alloc malloc (src.length + 1)).write
    (PointerWriter.decode_writes src) (by
      rw [List.length_append, List.length_singleton]
      omega)
  refine ⟨⟨_, (percentDecode src).length⟩, m', ?_, hlast.keeps,
    hlast.within (by omega), ?_⟩
  · rw [MemBlock.percentDecode]
    dsimp only
    rw [hwrite]
    rfl
  · rintro _ ⟨⟩
    exact read_eq_of_append hwritten

theorem toString_puts (m : MemBlock N) (malloc : Malloc) (n : ℤ) :
    ∃ v m', m.toString malloc n = .ok (v, m')
      ∧ m.Puts v m' (some (bytes (Int.repr n))) := by
  have hlt := length_repr_lt n
  obtain ⟨m', hwrite, hlast, hwritten⟩ := (m.last_alloc malloc (toStringSize 2 n)).write
    (PointerWriter.snprintf_writes hlt) (by
      rw [List.length_append, List.length_singleton]
      omega)
  refine ⟨⟨_, (bytes (Int.repr n)).length⟩, m', ?_, hlast.keeps,
    hlast.within hlt.le, ?_⟩
  · rw [MemBlock.toString]
    dsimp only
    rw [hwrite, Except.ok_bind]
    dsimp only
    rw [viewOf_eq_of_append (zero_notMem_repr n) hwritten]
    rfl
  · rintro _ ⟨⟩
    exact read_eq_of_append hwritten

theorem httpDate_puts (m : MemBlock N) (malloc : Malloc) (t : ℤ) :
    ∃ v m', m.httpDate malloc t = .ok (v, m') ∧ m.Puts v m' (httpDate t) := by
  have hdate : ((httpDate t).getD []).length ≤ 29 := by
    cases h : httpDate t with
    | none => exact Nat.zero_le 29
    | some s => exact (length_httpDate h).le
  obtain ⟨m₁, hwrite₁, hlast₁, -⟩ := (m.last_alloc malloc 29).write
    (PointerWriter.all_writes [0]) (by decide)
  obtain ⟨m', hwrite, hlast, hwritten⟩ :=
    hlast₁.write (PointerWriter.all_writes _) hdate
  refine ⟨⟨_, 29⟩, m', ?_, hlast.keeps, hlast.within le_rfl, fun s hs => ?_⟩
  · rw [MemBlock.httpDate]
    dsimp only
    rw [hwrite₁, Except.ok_bind]
    dsimp only
    rw [hwrite]
    rfl
  · rw [Option.mem_def] at hs
    rw [hs, Option.getD_some, ← List.append_nil s] at hwritten
    have hread := read_eq_of_append hwritten
    rwa [length_httpDate hs] at hread

/-- **Whatever the text is**, it is put there. -/
theorem put_puts (m : MemBlock N) (malloc : Malloc) (text : Text) :
    ∃ v m', m.put malloc text = .ok (v, m') ∧ m.Puts v m' text.text := by
  cases text with
  | decoded src => exact m.percentDecode_puts malloc src
  | signed n => exact m.toString_puts malloc n.toInt
  | unsigned n => exact m.toString_puts malloc n.toNat
  | date t => exact m.httpDate_puts malloc t

/-! ## Runs -/

/-- A call, with what `malloc` hands out. -/
structure Call where
  malloc : Malloc
  text : Text

/-- The memory, and the views that were returned so far. -/
structure Held (N : ℕ) where
  mem : MemBlock N
  views : List View

/-- The next call. -/
def Held.step (h : Held N) (c : Call) : Except Fault (Held N) := do
  let (v, mem) ← h.mem.put c.malloc c.text
  .ok ⟨mem, h.views ++ [v]⟩

/-- The views read what they should, and are inside what was handed out. -/
def Held.Inv (h : Held N) (calls : List Call) : Prop :=
  List.Forall₂ (fun (c : Call) v => h.mem.Within v
    ∧ ∀ s ∈ c.text.text, h.mem.read v = s) calls h.views

theorem Held.Inv.step {h : Held N} {calls : List Call} (hinv : h.Inv calls)
    (c : Call) : ∃ h', h.step c = .ok h' ∧ h'.Inv (calls ++ [c]) := by
  obtain ⟨v, mem, hput, hputs⟩ := h.mem.put_puts c.malloc c.text
  refine ⟨⟨mem, h.views ++ [v]⟩, ?_, ?_⟩
  · rw [Held.step, hput]
    rfl
  · refine List.rel_append (hinv.imp fun c' v' hv => ?_)
      (.cons ⟨hputs.within, hputs.reads⟩ .nil)
    exact ⟨hputs.keeps.within hv.1, fun s hs =>
      (hputs.keeps.read_eq hv.1).trans (hv.2 s hs)⟩

/-- **All texts are what they should be.** Whatever texts a stream makes for
itself, and in whatever order, wherever they go, and whatever was in the memory
before: nothing is written where nothing may be written, and in the end the view
of each of them reads that text. -/
theorem texts_of_run (data : Block N) (calls : List Call) :
    ∃ h : Held N, Run.exec Held.step ⟨fresh data, []⟩ calls = .ok h
      ∧ List.Forall₂ (fun (c : Call) v => ∀ s ∈ c.text.text, h.mem.read v = s)
        calls h.views := by
  have hrun : ∀ (h : Held N) (before : List Call), h.Inv before →
      ∃ h', Run.exec Held.step h calls = .ok h' ∧ h'.Inv (before ++ calls) := by
    induction calls with
    | nil => exact fun h before hinv => ⟨h, rfl, by rwa [List.append_nil]⟩
    | cons c calls ih =>
      intro h before hinv
      obtain ⟨h₁, hstep, hinv₁⟩ := hinv.step c
      obtain ⟨h', hexec, hinv'⟩ := ih h₁ (before ++ [c]) hinv₁
      refine ⟨h', (Run.exec_cons_of_ok hstep calls).trans hexec, ?_⟩
      rwa [List.append_assoc] at hinv'
  obtain ⟨h, hexec, hinv⟩ := hrun ⟨fresh data, []⟩ [] .nil
  exact ⟨h, hexec, hinv.imp fun c v hv => hv.2⟩

end MemBlock
