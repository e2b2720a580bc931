import Harmony.Run
import Harmony.StringView

/-!
# The header fields of a response

A response keeps its header fields in an array of ten, whose first slot is
reserved for `:status`; once the array is full and one more field is pushed,
all of it moves to a vector. What is handed to the protocol library is a
pointer to one or the other, and a count.

Seen from the library there is one list, the first `nvlen` elements of
whichever storage is in use (`ResponseHeader.buffer`). A push appends to it
on either side of the move and across it (`buffer_pushHeader`), and
`set_status` replaces its head (`buffer_setStatus`). That the storage in use
is long enough is part of the structure.
-/

/-- **`nghttp2_nv`**: a field and its flags. -/
structure Nv where
  name : Bytes
  value : Bytes
  /-- `NGHTTP2_NV_FLAG_NO_INDEX`. -/
  noIndex : Bool
  /-- `NGHTTP2_NV_FLAG_NO_COPY_NAME`. -/
  noCopyName : Bool
  /-- `NGHTTP2_NV_FLAG_NO_COPY_VALUE`. -/
  noCopyValue : Bool
  deriving DecidableEq, Repr

/-- `make_nv`; `copy` says which of the two texts the library is to copy. -/
def makeNv (n v : Bytes) (copy : Bool × Bool) (neverIndexed : Bool) : Nv where
  name := n
  value := v
  noIndex := neverIndexed
  noCopyName := !copy.1
  noCopyValue := !copy.2

/-- `reserved_response_headers_len`. -/
def reservedResponseHeadersLen : ℕ := 1

/-- **`Stream::ResponseHeader`.** -/
structure ResponseHeader where
  /-- The text of the status, unless it is a null pointer. -/
  status : Option Bytes
  /-- The array, of `max_nva_len` fields. -/
  nva : Vector Nv 10
  /-- The vector the array moves to. -/
  nvector : List Nv
  nvlen : ℕ
  reserved_le : reservedResponseHeadersLen ≤ nvlen
  /-- The vector is empty until the array has moved, and then holds all. -/
  length_nvector : nvector.length = if nvlen ≤ 10 then 0 else nvlen

/-- What the text of a null pointer is asked for. -/
inductive NullStatus where
  | nullStatus
  deriving DecidableEq, Repr

namespace ResponseHeader

/-- The constructor. The array is not initialised. -/
def fresh (nva : Vector Nv 10) : ResponseHeader where
  status := none
  nva := nva
  nvector := []
  nvlen := reservedResponseHeadersLen
  reserved_le := le_rfl
  length_nvector := rfl

/-- `push_header`. -/
def pushHeader (r : ResponseHeader) (nv : Nv) : ResponseHeader :=
  if hlt : r.nvlen < 10 then
    { r with
      nva := r.nva.set r.nvlen nv hlt
      nvlen := r.nvlen + 1
      reserved_le := r.reserved_le.trans (Nat.le_succ _)
      length_nvector := by
        rw [r.length_nvector, if_pos (by omega), if_pos (by omega)] }
  else
    { r with
      nvector :=
        (if r.nvlen = 10 then r.nvector ++ r.nva.toList else r.nvector) ++ [nv]
      nvlen := r.nvlen + 1
      reserved_le := r.reserved_le.trans (Nat.le_succ _)
      length_nvector := by
        have hlen := r.length_nvector
        rw [List.length_append, List.length_singleton,
          if_neg (show ¬r.nvlen + 1 ≤ 10 by omega)]
        by_cases heq : r.nvlen = 10
        · rw [if_pos (by omega)] at hlen
          rw [if_pos heq, List.length_append, hlen, Vector.length_toList, heq]
        · rw [if_neg (by omega)] at hlen
          rw [if_neg heq, hlen] }

/-- `set_header(const char *, const char *)`: both texts are literals. -/
def setHeader (r : ResponseHeader) (name value : Bytes) : ResponseHeader :=
  r.pushHeader (makeNv name value (false, false) false)

/-- `set_header(const char *, std::string_view)`: the value is copied. -/
def setHeaderCopy (r : ResponseHeader) (name value : Bytes) : ResponseHeader :=
  r.pushHeader (makeNv name value (false, true) false)

/-- `set_header_nc`. -/
def setHeaderNc (r : ResponseHeader) (name value : Bytes) : ResponseHeader :=
  r.pushHeader (makeNv name value (false, false) false)

/-- The field of a status. -/
def statusNv (status : Bytes) : Nv :=
  makeNv (bytes ":status") status (false, false) false

/-- Writes the first slot of the storage in use. -/
def putFront (r : ResponseHeader) (nv : Nv) : ResponseHeader :=
  if r.nvlen ≤ 10 then
    { r with nva := r.nva.set 0 nv (by omega) }
  else
    { r with
      nvector := r.nvector.set 0 nv
      length_nvector := by rw [List.length_set, r.length_nvector] }

/-- `set_status`. -/
def setStatus (r : ResponseHeader) : Except NullStatus ResponseHeader :=
  match r.status with
  | none => .error .nullStatus
  | some status => .ok (r.putFront (statusNv status))

/-- `get_buffer`: the storage in use, and how much of it. -/
def getBuffer (r : ResponseHeader) : List Nv × ℕ :=
  if r.nvlen ≤ 10 then (r.nva.toList, r.nvlen) else (r.nvector, r.nvlen)

/-- What the library reads there. -/
def buffer (r : ResponseHeader) : List Nv := r.getBuffer.1.take r.getBuffer.2

/-- What `submit_response` does before it hands the buffer over: a status
that was never set is `200`. -/
def withStatus (r : ResponseHeader) : Except NullStatus ResponseHeader :=
  { r with status := some (r.status.getD (bytes "200")) }.setStatus

/-! ## What the library sees -/

/-- The storage in use holds as many fields as are counted. -/
theorem nvlen_le_storage (r : ResponseHeader) :
    r.getBuffer.2 ≤ r.getBuffer.1.length := by
  unfold getBuffer
  by_cases hle : r.nvlen ≤ 10
  · rw [if_pos hle, Vector.length_toList]
    exact hle
  · rw [if_neg hle, r.length_nvector, if_neg hle]

theorem getBuffer_snd (r : ResponseHeader) : r.getBuffer.2 = r.nvlen := by
  unfold getBuffer
  split_ifs <;> rfl

theorem length_buffer (r : ResponseHeader) : r.buffer.length = r.nvlen := by
  rw [buffer, List.length_take, min_eq_left r.nvlen_le_storage, getBuffer_snd]

/-- There is always the slot of the status. -/
theorem buffer_ne_nil (r : ResponseHeader) : r.buffer ≠ [] := by
  have hlen := r.length_buffer
  have hle := r.reserved_le
  intro hnil
  rw [hnil, List.length_nil] at hlen
  rw [reservedResponseHeadersLen] at hle
  omega

/-- While the array is in use. -/
theorem buffer_of_le {r : ResponseHeader} (h : r.nvlen ≤ 10) :
    r.buffer = r.nva.toList.take r.nvlen := by
  rw [buffer, getBuffer, if_pos h]

/-- Once the vector is in use. -/
theorem buffer_of_lt {r : ResponseHeader} (h : 10 < r.nvlen) :
    r.buffer = r.nvector := by
  have hlen : r.nvector.length = r.nvlen := by
    rw [r.length_nvector, if_neg (by omega)]
  rw [buffer, getBuffer, if_neg (by omega), ← hlen, List.take_length]

/-- An array that is full is handed over whole. -/
theorem buffer_of_eq {r : ResponseHeader} (h : r.nvlen = 10) :
    r.buffer = r.nva.toList := by
  rw [buffer_of_le h.le, h]
  exact List.take_of_length_le (Vector.length_toList.le)

@[simp] theorem pushHeader_nvlen (r : ResponseHeader) (nv : Nv) :
    (r.pushHeader nv).nvlen = r.nvlen + 1 := by
  unfold pushHeader
  split_ifs <;> rfl

@[simp] theorem pushHeader_status (r : ResponseHeader) (nv : Nv) :
    (r.pushHeader nv).status = r.status := by
  unfold pushHeader
  split_ifs <;> rfl

theorem pushHeader_nva {r : ResponseHeader} (nv : Nv) (h : r.nvlen < 10) :
    (r.pushHeader nv).nva = r.nva.set r.nvlen nv h := by
  rw [pushHeader, dif_pos h]

theorem pushHeader_nvector {r : ResponseHeader} (nv : Nv)
    (h : ¬r.nvlen < 10) :
    (r.pushHeader nv).nvector
      = (if r.nvlen = 10 then r.nvector ++ r.nva.toList else r.nvector)
        ++ [nv] := by
  rw [pushHeader, dif_neg h]

/-- **A push appends**, in the array, in the vector and across the move from
one to the other. -/
theorem buffer_pushHeader (r : ResponseHeader) (nv : Nv) :
    (r.pushHeader nv).buffer = r.buffer ++ [nv] := by
  rcases lt_trichotomy r.nvlen 10 with hlt | heq | hgt
  · have hlen : r.nvlen < r.nva.toList.length := by
      rw [Vector.length_toList]
      exact hlt
    rw [buffer_of_le (by rw [pushHeader_nvlen]; omega), pushHeader_nva nv hlt,
      pushHeader_nvlen, Vector.toList_set, List.take_succ_eq_append_getElem
        (by rw [List.length_set]; exact hlen), List.getElem_set_self,
      List.take_set_of_le le_rfl, buffer_of_le hlt.le]
  · have hempty : r.nvector = [] := by
      rw [← List.length_eq_zero_iff, r.length_nvector, if_pos heq.le]
    rw [buffer_of_lt (by rw [pushHeader_nvlen]; omega),
      pushHeader_nvector nv heq.not_lt, if_pos heq, hempty, List.nil_append,
      buffer_of_eq heq]
  · rw [buffer_of_lt (by rw [pushHeader_nvlen]; omega),
      pushHeader_nvector nv hgt.not_gt, if_neg hgt.ne', buffer_of_lt hgt]

@[simp] theorem putFront_nvlen (r : ResponseHeader) (nv : Nv) :
    (r.putFront nv).nvlen = r.nvlen := by
  unfold putFront
  split_ifs <;> rfl

@[simp] theorem putFront_status (r : ResponseHeader) (nv : Nv) :
    (r.putFront nv).status = r.status := by
  unfold putFront
  split_ifs <;> rfl

theorem putFront_nva {r : ResponseHeader} (nv : Nv) (h : r.nvlen ≤ 10) :
    (r.putFront nv).nva = r.nva.set 0 nv (by omega) := by
  rw [putFront, if_pos h]

theorem putFront_nvector {r : ResponseHeader} (nv : Nv) (h : ¬r.nvlen ≤ 10) :
    (r.putFront nv).nvector = r.nvector.set 0 nv := by
  rw [putFront, if_neg h]

/-- The first slot of the storage in use is the first field the library
sees. -/
theorem buffer_putFront (r : ResponseHeader) (nv : Nv) :
    (r.putFront nv).buffer = nv :: r.buffer.tail := by
  have hset : (r.putFront nv).buffer = r.buffer.set 0 nv := by
    by_cases hle : r.nvlen ≤ 10
    · rw [buffer_of_le (by rw [putFront_nvlen]; exact hle), putFront_nva nv hle,
        putFront_nvlen, Vector.toList_set, List.take_set, buffer_of_le hle]
    · rw [buffer_of_lt (by rw [putFront_nvlen]; omega), putFront_nvector nv hle,
        buffer_of_lt (by omega)]
  obtain ⟨first, rest, hbuffer⟩ := List.exists_cons_of_ne_nil r.buffer_ne_nil
  rw [hset, hbuffer]
  rfl

theorem setStatus_of_some {r : ResponseHeader} {status : Bytes}
    (h : r.status = some status) :
    r.setStatus = .ok (r.putFront (statusNv status)) := by
  rw [setStatus, h]

/-! ## Runs -/

/-- **What is done to the header fields of a response.** -/
inductive Call where
  /-- `status` is assigned. -/
  | status (text : Bytes)
  | setHeader (name value : Bytes)
  | setHeaderCopy (name value : Bytes)
  | setHeaderNc (name value : Bytes)
  | setStatus

/-- The header fields after a call. -/
def step (r : ResponseHeader) : Call → Except NullStatus ResponseHeader
  | .status text => .ok { r with status := some text }
  | .setHeader name value => .ok (r.setHeader name value)
  | .setHeaderCopy name value => .ok (r.setHeaderCopy name value)
  | .setHeaderNc name value => .ok (r.setHeaderNc name value)
  | .setStatus => r.setStatus

/-- The field a call pushes. -/
def Call.pushed : Call → Option Nv
  | .status _ => none
  | .setHeader name value => some (makeNv name value (false, false) false)
  | .setHeaderCopy name value => some (makeNv name value (false, true) false)
  | .setHeaderNc name value => some (makeNv name value (false, false) false)
  | .setStatus => none

/-- The text a call assigns to the status. -/
def Call.assigned : Call → Option Bytes
  | .status text => some text
  | _ => none

/-- The status after the calls, from one before them. -/
def lastStatus (status : Option Bytes) (calls : List Call) : Option Bytes :=
  calls.foldl (fun s c => c.assigned.or s) status

/-- **A step pushes what it pushes**, behind what is there. -/
theorem step_spec {r r' : ResponseHeader} {call : Call}
    (h : r.step call = .ok r') :
    r'.buffer.tail = r.buffer.tail ++ call.pushed.toList
      ∧ r'.status = call.assigned.or r.status := by
  have htail : ∀ nv : Nv, (r.pushHeader nv).buffer.tail
      = r.buffer.tail ++ [nv] := by
    intro nv
    rw [buffer_pushHeader, List.tail_append_of_ne_nil r.buffer_ne_nil]
  cases call with
  | status text =>
    cases h
    exact ⟨(List.append_nil _).symm, rfl⟩
  | setHeader name value =>
    cases h
    exact ⟨htail _, pushHeader_status r _⟩
  | setHeaderCopy name value =>
    cases h
    exact ⟨htail _, pushHeader_status r _⟩
  | setHeaderNc name value =>
    cases h
    exact ⟨htail _, pushHeader_status r _⟩
  | setStatus =>
    have hset : r.setStatus = .ok r' := h
    cases hstatus : r.status with
    | none =>
      rw [setStatus, hstatus] at hset
      cases hset
    | some status =>
      rw [setStatus_of_some hstatus] at hset
      cases hset
      rw [buffer_putFront, List.tail_cons, putFront_status]
      exact ⟨(List.append_nil _).symm, hstatus⟩

theorem tail_buffer_fresh (nva : Vector Nv 10) :
    (fresh nva).buffer.tail = [] := by
  have hlen := (fresh nva).length_buffer
  rw [← List.length_eq_zero_iff, List.length_tail, hlen]
  rfl

/-- **A run pushes what its calls push**, in their order. -/
theorem exec_spec {r r' : ResponseHeader} {calls : List Call}
    (h : Run.exec step r calls = .ok r') :
    r'.buffer.tail = r.buffer.tail ++ calls.filterMap Call.pushed
      ∧ r'.status = lastStatus r.status calls := by
  induction calls generalizing r with
  | nil =>
    cases h
    exact ⟨(List.append_nil _).symm, rfl⟩
  | cons call calls ih =>
    obtain ⟨r₁, hstep, hrest⟩ := Run.step_of_exec_cons h
    obtain ⟨htail₁, hstatus₁⟩ := step_spec hstep
    obtain ⟨htail, hstatus⟩ := ih hrest
    refine ⟨?_, ?_⟩
    · rw [htail, htail₁, List.append_assoc]
      congr 1
      cases hpushed : call.pushed with
      | none => rw [List.filterMap_cons_none hpushed]; rfl
      | some nv => rw [List.filterMap_cons_some hpushed]; rfl
    · rw [hstatus, hstatus₁]
      rfl

/-- **What `set_status` and `get_buffer` yield**: the status, then the fields
in the order they were pushed. -/
theorem setStatus_buffer {nva : Vector Nv 10} {calls : List Call}
    {r : ResponseHeader} (h : Run.exec step (fresh nva) calls = .ok r)
    {status : Bytes} (hstatus : r.status = some status) :
    ∃ r', r.setStatus = .ok r'
      ∧ r'.buffer = statusNv status :: calls.filterMap Call.pushed
      ∧ r'.getBuffer.2 = (calls.filterMap Call.pushed).length + 1
      ∧ r'.getBuffer.2 ≤ r'.getBuffer.1.length := by
  have hbuffer : (r.putFront (statusNv status)).buffer
      = statusNv status :: calls.filterMap Call.pushed := by
    rw [buffer_putFront, (exec_spec h).1, tail_buffer_fresh, List.nil_append]
  refine ⟨_, setStatus_of_some hstatus, hbuffer, ?_, nvlen_le_storage _⟩
  rw [getBuffer_snd, ← length_buffer, hbuffer, List.length_cons]

/-- **The buffer handed over is `:status` and the fields pushed**, in their
order, whatever was called before and however often the status was set, on
either side of the move to the vector; `submit_response` makes it so also
where no status was assigned. -/
theorem getBuffer_eq_status_cons_pushed (nva : Vector Nv 10)
    (calls : List Call) {r : ResponseHeader}
    (h : Run.exec step (fresh nva) calls = .ok r) :
    (∀ status : Bytes, lastStatus none calls = some status →
      ∃ r', r.setStatus = .ok r'
        ∧ r'.getBuffer.1.take r'.getBuffer.2
          = makeNv (bytes ":status") status (false, false) false
            :: calls.filterMap Call.pushed
        ∧ r'.getBuffer.2 = (calls.filterMap Call.pushed).length + 1
        ∧ r'.getBuffer.2 ≤ r'.getBuffer.1.length)
      ∧ ∃ r', r.withStatus = .ok r'
        ∧ r'.getBuffer.1.take r'.getBuffer.2
          = makeNv (bytes ":status")
              ((lastStatus none calls).getD (bytes "200")) (false, false) false
            :: calls.filterMap Call.pushed
        ∧ r'.getBuffer.2 = (calls.filterMap Call.pushed).length + 1
        ∧ r'.getBuffer.2 ≤ r'.getBuffer.1.length := by
  have hstatus : r.status = lastStatus none calls := (exec_spec h).2
  refine ⟨fun status hlast => setStatus_buffer h (hstatus.trans hlast), ?_⟩
  -- the default is one more assignment before `set_status`
  have hrun : Run.exec step (fresh nva) (calls
      ++ [.status (r.status.getD (bytes "200"))])
      = .ok { r with status := some (r.status.getD (bytes "200")) } := by
    rw [Run.exec_append_of_ok h]
    rfl
  obtain ⟨r', hset, hbuffer, hlen, hle⟩ := setStatus_buffer hrun rfl
  rw [List.filterMap_append] at hbuffer hlen
  refine ⟨r', hset, ?_, ?_, hle⟩
  · rw [← hstatus]
    exact hbuffer.trans (congrArg _ (List.append_nil _))
  · exact hlen.trans (congrArg (fun l => List.length l + 1) (List.append_nil _))

/-- Eleven fields, with the status set before any of them, when the array is
full and at the end. -/
theorem getBuffer_eleven :
    ∃ r r', Run.exec step (fresh (.replicate 10
        (makeNv [] [] (false, false) false)))
        ([.status [50], .setStatus] ++ List.replicate 9 (.setHeader [97] [98])
          ++ [.setStatus, .setHeaderNc [99] [100], .setHeaderCopy [101] [102]])
        = .ok r
      ∧ r.setStatus = .ok r'
      ∧ r'.getBuffer.1.take r'.getBuffer.2
        = makeNv (bytes ":status") [50] (false, false) false
          :: (List.replicate 9 (makeNv [97] [98] (false, false) false)
            ++ [makeNv [99] [100] (false, false) false,
              makeNv [101] [102] (false, true) false]) := by
  obtain ⟨r', hset, hbuffer, -⟩ := (getBuffer_eq_status_cons_pushed
    (.replicate 10 (makeNv [] [] (false, false) false))
    ([.status [50], .setStatus] ++ List.replicate 9 (.setHeader [97] [98])
      ++ [.setStatus, .setHeaderNc [99] [100], .setHeaderCopy [101] [102]])
    rfl).1 [50] rfl
  exact ⟨_, r', rfl, hset, hbuffer⟩

end ResponseHeader
