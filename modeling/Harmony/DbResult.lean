import Harmony.DbSession

/-!
# Results and their holders

What a query answers is held by one of four kinds of objects: a `Result`,
which can only be moved, a `SharedResult`, which can also be copied, and the
strings made of either, which keep the result their text lies in. Every
result reaches its handler through a chain of these, and every link of the
chain goes through one hand-written copy, `ResultBase::assign`.

The objects are those of the sources, fields and all; each constructor and
assignment gives the new object and, for a move, what is left of the old one.
`Holder.Op` lists them by the classes they lead between, so that a chain that
would not compile cannot be written down.

The copy takes the number of rows for the number of columns
(`ResultBase.assign`). What the last holder reports is thus what the first
one did exactly if nothing was moved or the two numbers agree
(`same_result_iff`).
-/

namespace Db

/-- How an access to a result can fail to return. -/
inductive AccessFault where
  /-- A failed `assert`. -/
  | assertion
  /-- A string view of a null pointer. -/
  | nullValue
  deriving DecidableEq, Repr

/-! ## What the library hands over -/

/-- **A result of the client library**, as far as it is asked for it. -/
structure PgTuples where
  /-- `PQresultStatus`. -/
  status : ResultStatus
  /-- The rows; `PQntuples` is how many. -/
  rows : List (List Bytes)
  /-- `PQnfields`. -/
  nFields : ℕ
  deriving DecidableEq, Repr

/-- `PQntuples`. -/
def PgTuples.nTuples (p : PgTuples) : ℕ := p.rows.length

/-- `PQgetvalue`, which is a null pointer out of range. -/
def PgTuples.getValue (p : PgTuples) (row col : ℤ) : Option Bytes :=
  if 0 ≤ row ∧ 0 ≤ col then do
    let cells ← p.rows[row.toNat]?
    cells[col.toNat]?
  else none

/-! ## `ResultBase` -/

namespace ResultBase

/-- `ResultBase::Status`. -/
inductive Status where
  | error
  | empty
  | single
  | many
  deriving DecidableEq, Repr

end ResultBase

/-- **The part all results share.** -/
structure ResultBase where
  pgResult : Option PgTuples
  status : ResultBase.Status
  nRows : ℤ
  nCols : ℤ
  errorMessage : Option Bytes
  deriving DecidableEq, Repr

namespace ResultBase

/-- The status the constructor makes of the library's. -/
def Status.ofPg : ResultStatus → Status
  | .commandOk => .empty
  | .tuplesOk => .many
  | .singleTuple => .single
  | _ => .error

/-- The constructor. It leaves the two counts of an error uninitialised: they
are what the memory held before. -/
def ofPg (memory : ℤ × ℤ) (p : PgTuples) : ResultBase :=
  let status := Status.ofPg p.status
  { pgResult := some p
    status := status
    nRows := if status = .error then memory.1 else p.nTuples
    nCols := if status = .error then memory.2 else p.nFields
    errorMessage := none }

/-- `assign`: the copy behind every constructor and assignment. -/
def assign (b : ResultBase) : ResultBase where
  pgResult := b.pgResult
  status := b.status
  nRows := b.nRows
  nCols := b.nRows -- as in the source: the rows again
  errorMessage := b.errorMessage

/-- What a move leaves of its source. -/
def release (b : ResultBase) : ResultBase := { b with pgResult := none }

def numRows (r : ResultBase) : ℤ := r.nRows

def numCols (r : ResultBase) : ℤ := r.nCols

/-- The assertions of `value_at`. -/
def ValueAtAsserts (r : ResultBase) (row col : ℤ) : Prop :=
  r.status = .many ∧ row < r.nRows ∧ col < r.nCols

instance (r : ResultBase) (row col : ℤ) : Decidable (r.ValueAtAsserts row col) :=
  inferInstanceAs (Decidable (_ ∧ _ ∧ _))

/-- `value_at`. -/
def valueAt (r : ResultBase) (row col : ℤ) : Except AccessFault Bytes :=
  if r.ValueAtAsserts row col then
    match r.pgResult.bind (·.getValue row col) with
    | some value => .ok value
    | none => .error .nullValue
  else .error .assertion

end ResultBase

/-! ## Iterators -/

/-- **A place among the rows of a result.** -/
structure RowIterator where
  rowIndex : ℤ
  result : ResultBase

namespace RowIterator

/-- `operator+`, which stops at the number of rows. -/
def plus (it : RowIterator) (n : ℤ) : RowIterator :=
  { it with rowIndex := min (it.rowIndex + n) it.result.nRows }

/-- `next`, and both of `operator++`. -/
def next (it : RowIterator) : RowIterator := it.plus 1

end RowIterator

namespace ResultBase

/-- `begin`. -/
def begin (r : ResultBase) : RowIterator := ⟨0, r⟩

/-- The row index of `end`. -/
def endIndex (r : ResultBase) : ℤ := r.nRows

/-- The rows a loop sees that runs from an iterator to `end`. Where the
iterator is past the end, one step takes it back there. -/
def rowsFrom (it : RowIterator) : List ℤ :=
  if it.rowIndex = it.result.endIndex then []
  else it.rowIndex :: rowsFrom it.next
termination_by
  if it.rowIndex ≤ it.result.nRows then (it.result.nRows - it.rowIndex).toNat
  else 1
decreasing_by
  rename_i hne
  have hne' : it.rowIndex ≠ it.result.nRows := hne
  have hnext : it.next.rowIndex = min (it.rowIndex + 1) it.result.nRows := rfl
  have hle : it.next.rowIndex ≤ it.next.result.nRows := min_le_right _ _
  have hrows : it.next.result.nRows = it.result.nRows := rfl
  rw [if_pos hle, hnext, hrows]
  by_cases hle : it.rowIndex ≤ it.result.nRows
  · rw [if_pos hle]
    omega
  · rw [if_neg hle]
    omega

/-- The rows a loop from `begin()` to `end()` sees. -/
def visits (r : ResultBase) : List ℤ := rowsFrom r.begin

end ResultBase

/-! ## The four classes -/

/-- **A result that can only be moved**, with its `unique_ptr`. -/
structure Result extends ResultBase where
  ptr : Option PgTuples
  deriving DecidableEq, Repr

/-- **A result that can be copied**, with its `shared_ptr`. -/
structure SharedResult extends ResultBase where
  ptr : Option PgTuples
  deriving DecidableEq, Repr

/-- **The text of a moved result.** -/
structure ResultString where
  content : Bytes
  result : Result
  deriving DecidableEq, Repr

/-- **The text of a shared result.** -/
structure SharedResultString where
  content : Bytes
  result : SharedResult
  deriving DecidableEq, Repr

namespace Result

/-- The constructor for what the library hands over. -/
def ofPg (memory : ℤ × ℤ) (p : PgTuples) : Result :=
  { ResultBase.ofPg memory p with ptr := some p }

/-- The move constructor, and what it leaves of its argument. -/
def moveConstruct (b : Result) : Result × Result :=
  ({ b.assign with ptr := b.ptr }, { b.release with ptr := none })

/-- The move assignment of another object: every field of the old value is
overwritten. -/
def moveAssign (_this b : Result) : Result × Result :=
  ({ b.assign with ptr := b.ptr }, { b.release with ptr := none })

/-- The move assignment of an object to itself: the pointer cleared is its
own, while a smart pointer survives. -/
def selfMoveAssign (b : Result) : Result :=
  { b.assign.release with ptr := b.ptr }

end Result

namespace SharedResult

/-- The constructor for what the library hands over. -/
def ofPg (memory : ℤ × ℤ) (p : PgTuples) : SharedResult :=
  { ResultBase.ofPg memory p with ptr := some p }

/-- The move constructor, and what it leaves of its argument. -/
def moveConstruct (b : SharedResult) : SharedResult × SharedResult :=
  ({ b.assign with ptr := b.ptr }, { b.release with ptr := none })

/-- The move assignment of another object. -/
def moveAssign (_this b : SharedResult) : SharedResult × SharedResult :=
  ({ b.assign with ptr := b.ptr }, { b.release with ptr := none })

/-- The move assignment of an object to itself. -/
def selfMoveAssign (b : SharedResult) : SharedResult :=
  { b.assign.release with ptr := b.ptr }

/-- The copy constructor. -/
def copyConstruct (b : SharedResult) : SharedResult :=
  { b.assign with ptr := b.ptr }

/-- The copy assignment, also of an object to itself. -/
def copyAssign (_this b : SharedResult) : SharedResult :=
  { b.assign with ptr := b.ptr }

end SharedResult

namespace ResultString

/-- The constructor from a result, which is moved in before its text is
read. -/
def ofResult (result : Result) : Except AccessFault ResultString := do
  let result := result.moveConstruct.1
  let content ← result.valueAt 0 0
  return ⟨content, result⟩

/-- The assignment of a result. -/
def assignResult (this : ResultString) (result : Result) :
    Except AccessFault ResultString := do
  let result := (this.result.moveAssign result).1
  let content ← result.valueAt 0 0
  return ⟨content, result⟩

/-- The move constructor. -/
def moveConstruct (b : ResultString) : ResultString :=
  ⟨b.content, b.result.moveConstruct.1⟩

/-- The move assignment of another object. -/
def moveAssign (this b : ResultString) : ResultString :=
  ⟨b.content, (this.result.moveAssign b.result).1⟩

/-- The move assignment of an object to itself. -/
def selfMoveAssign (b : ResultString) : ResultString :=
  ⟨b.content, b.result.selfMoveAssign⟩

end ResultString

namespace SharedResultString

/-- The constructor from a result, which is copied. -/
def ofShared (b : SharedResult) : Except AccessFault SharedResultString := do
  let result := b.copyConstruct
  let content ← result.valueAt 0 0
  return ⟨content, result⟩

/-- The assignment of a result. -/
def assignShared (this : SharedResultString) (b : SharedResult) :
    Except AccessFault SharedResultString := do
  let result := this.result.copyAssign b
  let content ← result.valueAt 0 0
  return ⟨content, result⟩

/-- The copy constructor, which a move also takes. -/
def copyConstruct (b : SharedResultString) : SharedResultString :=
  ⟨b.content, b.result.copyConstruct⟩

/-- The copy assignment, also of an object to itself. -/
def copyAssign (this b : SharedResultString) : SharedResultString :=
  ⟨b.content, this.result.copyAssign b.result⟩

end SharedResultString

/-! ## Chains of holders -/

namespace Holder

/-- The class of a holder. -/
inductive Cls where
  | result
  | shared
  | string
  | sharedString
  deriving DecidableEq, Repr

/-- The objects of a class. -/
def Object : Cls → Type
  | .result => Result
  | .shared => SharedResult
  | .string => ResultString
  | .sharedString => SharedResultString

/-- What an object holds. -/
def base : {c : Cls} → Object c → ResultBase
  | .result, r => Result.toResultBase r
  | .shared, r => SharedResult.toResultBase r
  | .string, s => (ResultString.result s).toResultBase
  | .sharedString, s => (SharedResultString.result s).toResultBase

/-- **A move, a copy or an assignment**, from a holder of one class to one of
another; `this` is the object assigned to. -/
inductive Op : Cls → Cls → Type where
  | moveResult : Op .result .result
  | moveAssignResult (this : Result) : Op .result .result
  | selfMoveResult : Op .result .result
  | moveShared : Op .shared .shared
  | moveAssignShared (this : SharedResult) : Op .shared .shared
  | selfMoveShared : Op .shared .shared
  | copyShared : Op .shared .shared
  | copyAssignShared (this : SharedResult) : Op .shared .shared
  | stringOfResult : Op .result .string
  | stringAssignResult (this : ResultString) : Op .result .string
  | moveString : Op .string .string
  | moveAssignString (this : ResultString) : Op .string .string
  | selfMoveString : Op .string .string
  | stringOfShared : Op .shared .sharedString
  | stringAssignShared (this : SharedResultString) : Op .shared .sharedString
  | copySharedString : Op .sharedString .sharedString
  | copyAssignSharedString (this : SharedResultString) :
    Op .sharedString .sharedString

/-- The object it leads to. -/
def Op.run : {c d : Cls} → Op c d → Object c → Except AccessFault (Object d)
  | _, _, .moveResult, r => .ok (Result.moveConstruct r).1
  | _, _, .moveAssignResult this, r => .ok (Result.moveAssign this r).1
  | _, _, .selfMoveResult, r => .ok (Result.selfMoveAssign r)
  | _, _, .moveShared, r => .ok (SharedResult.moveConstruct r).1
  | _, _, .moveAssignShared this, r => .ok (SharedResult.moveAssign this r).1
  | _, _, .selfMoveShared, r => .ok (SharedResult.selfMoveAssign r)
  | _, _, .copyShared, r => .ok (SharedResult.copyConstruct r)
  | _, _, .copyAssignShared this, r => .ok (SharedResult.copyAssign this r)
  | _, _, .stringOfResult, r => ResultString.ofResult r
  | _, _, .stringAssignResult this, r => ResultString.assignResult this r
  | _, _, .moveString, s => .ok (ResultString.moveConstruct s)
  | _, _, .moveAssignString this, s => .ok (ResultString.moveAssign this s)
  | _, _, .selfMoveString, s => .ok (ResultString.selfMoveAssign s)
  | _, _, .stringOfShared, r => SharedResultString.ofShared r
  | _, _, .stringAssignShared this, r =>
    SharedResultString.assignShared this r
  | _, _, .copySharedString, s => .ok (SharedResultString.copyConstruct s)
  | _, _, .copyAssignSharedString this, s =>
    .ok (SharedResultString.copyAssign this s)

/-- **A chain of holders.** -/
inductive Chain : Cls → Cls → Type where
  | nil {c : Cls} : Chain c c
  | cons {c d e : Cls} (op : Op c d) (rest : Chain d e) : Chain c e

/-- How many links a chain has. -/
def Chain.length : {c d : Cls} → Chain c d → ℕ
  | _, _, .nil => 0
  | _, _, .cons _ rest => rest.length + 1

/-- **The last holder of a chain.** -/
def Chain.run : {c d : Cls} → Chain c d → Object c →
    Except AccessFault (Object d)
  | _, _, .nil, x => .ok x
  | _, _, .cons op rest, x => do
    let y ← op.run x
    rest.run y

/-- Who first owns a result. -/
inductive Owner where
  | unique
  | shared
  deriving DecidableEq, Repr

/-- The class of the first holder. -/
def Owner.cls : Owner → Cls
  | .unique => .result
  | .shared => .shared

/-- **The freshly constructed object.** -/
def Owner.construct (memory : ℤ × ℤ) (p : PgTuples) :
    (o : Owner) → Object o.cls
  | .unique => Result.ofPg memory p
  | .shared => SharedResult.ofPg memory p

end Holder

/-! ## What iterating visits -/

namespace ResultBase

theorem rowsFrom_end (r : ResultBase) : rowsFrom ⟨r.nRows, r⟩ = [] := by
  rw [rowsFrom]
  exact if_pos rfl

/-- Below the end a loop sees the row it is at and goes on to the next. -/
theorem rowsFrom_of_lt (r : ResultBase) {row : ℤ} (h : row < r.nRows) :
    rowsFrom ⟨row, r⟩ = row :: rowsFrom ⟨row + 1, r⟩ := by
  have hne : ¬(row = r.nRows) := h.ne
  have hnext : (RowIterator.next ⟨row, r⟩) = ⟨row + 1, r⟩ := by
    rw [RowIterator.next, RowIterator.plus,
      min_eq_left (show row + 1 ≤ r.nRows by omega)]
  rw [rowsFrom, ← hnext]
  exact if_neg hne

/-- **A loop sees every row once**, in order, from a row that is not past the
end. -/
theorem rowsFrom_eq (r : ResultBase) (n : ℕ) :
    rowsFrom ⟨r.nRows - n, r⟩
      = (List.range n).map (fun i : ℕ => r.nRows - n + (i : ℤ)) := by
  induction n with
  | zero =>
    rw [Int.natCast_zero, Int.sub_zero, rowsFrom_end]
    rfl
  | succ n ih =>
    have hstep : r.nRows - (n + 1 : ℕ) + 1 = r.nRows - n := by omega
    have htail : (List.range n).map (fun i : ℕ => r.nRows - n + (i : ℤ))
        = ((List.range n).map Nat.succ).map
            (fun i : ℕ => r.nRows - (n + 1 : ℕ) + (i : ℤ)) := by
      rw [List.map_map]
      refine List.map_congr_left fun i _ => ?_
      show r.nRows - n + (i : ℤ) = r.nRows - (n + 1 : ℕ) + (i + 1 : ℕ)
      omega
    rw [rowsFrom_of_lt r (by omega), hstep, ih, List.range_succ_eq_map,
      List.map_cons, htail, Int.natCast_zero, Int.add_zero]

/-- The rows of a result whose count makes sense. -/
theorem visits_of_nonneg {r : ResultBase} (h : 0 ≤ r.nRows) :
    r.visits = (List.range r.nRows.toNat).map (fun i : ℕ => (i : ℤ)) := by
  have hrows : r.nRows - (r.nRows.toNat : ℤ) = 0 := by omega
  have hall := rowsFrom_eq r r.nRows.toNat
  rw [hrows] at hall
  rw [visits, begin, hall]
  refine List.map_congr_left fun i _ => ?_
  rw [Int.zero_add]

/-- A loop over fewer than no rows sees one. -/
theorem visits_of_neg {r : ResultBase} (h : r.nRows < 0) : r.visits = [0] := by
  have hne : ¬((0 : ℤ) = r.nRows) := h.ne'
  have hnext : RowIterator.next ⟨0, r⟩ = ⟨r.nRows, r⟩ := by
    rw [RowIterator.next, RowIterator.plus,
      min_eq_right (show r.nRows ≤ 0 + 1 by omega)]
  rw [visits, begin, rowsFrom, hnext, rowsFrom_end]
  exact if_neg hne

/-- **A loop visits `0 .. num_rows - 1` exactly if that count is not
negative.** -/
theorem visits_eq_iff (r : ResultBase) :
    r.visits = (List.range r.nRows.toNat).map (fun i : ℕ => (i : ℤ))
      ↔ 0 ≤ r.nRows := by
  refine ⟨fun h => ?_, visits_of_nonneg⟩
  by_contra hneg
  rw [visits_of_neg (by omega), show r.nRows.toNat = 0 by omega] at h
  cases h

/-! ## What a link keeps -/

/-- **What a copy keeps**: the status and the number of rows, which is also
what the number of columns becomes. -/
structure Assigned (x y : ResultBase) : Prop where
  status_eq : y.status = x.status
  nRows_eq : y.nRows = x.nRows
  nCols_eq : y.nCols = x.nRows

theorem assigned_assign (b : ResultBase) : Assigned b b.assign :=
  ⟨rfl, rfl, rfl⟩

/-- The pointer makes no difference. -/
theorem assigned_release (b : ResultBase) : Assigned b b.assign.release :=
  ⟨rfl, rfl, rfl⟩

theorem Assigned.trans {x y z : ResultBase} (h : Assigned x y)
    (h' : Assigned y z) : Assigned x z :=
  ⟨h'.status_eq.trans h.status_eq, h'.nRows_eq.trans h.nRows_eq,
    h'.nCols_eq.trans h.nRows_eq⟩

/-- **The last holder reports what the first one did.** -/
structure SameResult (fresh last : ResultBase) : Prop where
  status_eq : last.status = fresh.status
  numRows_eq : last.numRows = fresh.numRows
  numCols_eq : last.numCols = fresh.numCols
  /-- `value_at` passes its assertions for the same cells. -/
  cells : ∀ row col : ℤ,
    last.ValueAtAsserts row col ↔ fresh.ValueAtAsserts row col
  /-- Iterating visits the rows in order, each once. -/
  visits_eq :
    last.visits = (List.range last.numRows.toNat).map (fun i : ℕ => (i : ℤ))

/-- **An object reports what it reports** if its rows can be counted. -/
theorem sameResult_refl_iff (x : ResultBase) :
    SameResult x x ↔ 0 ≤ x.nRows :=
  ⟨fun h => (visits_eq_iff x).mp h.visits_eq,
    fun h => ⟨rfl, rfl, rfl, fun _ _ => Iff.rfl, (visits_eq_iff x).mpr h⟩⟩

/-- **After a copy the counts have to agree.** -/
theorem Assigned.sameResult_iff {x y : ResultBase} (h : Assigned x y) :
    SameResult x y ↔ x.nRows = x.nCols ∧ 0 ≤ x.nRows := by
  constructor
  · intro hsame
    have hcols : y.nCols = x.nCols := hsame.numCols_eq
    have hvisits := (visits_eq_iff y).mp hsame.visits_eq
    exact ⟨h.nCols_eq.symm.trans hcols, h.nRows_eq ▸ hvisits⟩
  · rintro ⟨hcols, hrows⟩
    refine ⟨h.status_eq, h.nRows_eq, h.nCols_eq.trans hcols, ?_, ?_⟩
    · intro row col
      rw [ValueAtAsserts, ValueAtAsserts, h.status_eq, h.nRows_eq, h.nCols_eq,
        hcols]
    · exact (visits_eq_iff y).mpr (h.nRows_eq.symm ▸ hrows)

end ResultBase

namespace Holder

open ResultBase

/-- What a string is made of is what its result was moved or copied to. -/
theorem result_of_bind {α β : Type} {r : α} {v : Except AccessFault Bytes}
    {f : Bytes → α → β} {s : β}
    (h : (v >>= fun content => pure (f content r)) = .ok s) :
    ∃ content, s = f content r := by
  obtain ⟨content, -, hs⟩ := Except.exists_of_bind_eq_ok h
  exact ⟨content, (Except.ok.inj hs).symm⟩

/-- **Every link is a copy**, whatever classes it leads between. -/
theorem assigned_of_run {c d : Cls} {op : Op c d} {x : Object c} {y : Object d}
    (h : op.run x = .ok y) : Assigned (base x) (base y) := by
  cases op with
  | moveResult | moveAssignResult | moveShared | moveAssignShared
  | copyShared | copyAssignShared | moveString | moveAssignString
  | copySharedString | copyAssignSharedString =>
    cases h
    exact assigned_assign _
  | selfMoveResult | selfMoveShared | selfMoveString =>
    cases h
    exact assigned_release _
  | stringOfResult | stringAssignResult =>
    obtain ⟨content, rfl⟩ := result_of_bind (f := ResultString.mk) h
    exact assigned_assign _
  | stringOfShared | stringAssignShared =>
    obtain ⟨content, rfl⟩ := result_of_bind (f := SharedResultString.mk) h
    exact assigned_assign _

/-- **A chain keeps what its links keep**: an empty one everything, any other
what a copy does. -/
theorem assigned_of_chain {c d : Cls} (chain : Chain c d) {x : Object c}
    {y : Object d} (h : chain.run x = .ok y) :
    (chain.length = 0 ∧ base y = base x)
      ∨ (chain.length ≠ 0 ∧ Assigned (base x) (base y)) := by
  induction chain with
  | nil =>
    cases h
    exact .inl ⟨rfl, rfl⟩
  | cons op rest ih =>
    obtain ⟨z, hop, hrest⟩ := Except.exists_of_bind_eq_ok h
    have hfirst := assigned_of_run hop
    refine .inr ⟨Nat.succ_ne_zero _, ?_⟩
    rcases ih hrest with ⟨-, hbase⟩ | ⟨-, hbase⟩
    · rw [hbase]
      exact hfirst
    · exact hfirst.trans hbase

/-- **A chain keeps what a result reports exactly if it is empty or there are
as many rows as columns.** An error, whose counts are whatever the memory
held, also has to have found a number of rows that is not negative there. -/
theorem same_result_iff (memory : ℤ × ℤ) (p : PgTuples) (o : Owner) {c : Cls}
    (chain : Chain o.cls c) {last : Object c}
    (h : chain.run (o.construct memory p) = .ok last) :
    SameResult (base (o.construct memory p)) (base last)
      ↔ (chain.length = 0
          ∨ (base (o.construct memory p)).nRows
              = (base (o.construct memory p)).nCols)
        ∧ 0 ≤ (base (o.construct memory p)).nRows := by
  rcases assigned_of_chain chain h with ⟨hlen, hbase⟩ | ⟨hlen, hassigned⟩
  · rw [hbase, sameResult_refl_iff]
    exact (and_iff_right (.inl hlen)).symm
  · rw [hassigned.sameResult_iff, or_iff_right hlen]

/-- Two rows of two columns, moved twice and made a string. -/
theorem same_result_square :
    ∃ last, Chain.run (.cons .moveResult (.cons (.moveAssignResult
          (Result.ofPg (0, 0) ⟨.commandOk, [], 0⟩)) (.cons .stringOfResult
            .nil)))
        (Owner.unique.construct (0, 0)
          ⟨.tuplesOk, [[[65], [66]], [[67], [68]]], 2⟩) = .ok last
      ∧ SameResult (base (Owner.unique.construct (0, 0)
          ⟨.tuplesOk, [[[65], [66]], [[67], [68]]], 2⟩)) (base last) := by
  refine ⟨_, rfl, ?_⟩
  exact (same_result_iff (0, 0) ⟨.tuplesOk, [[[65], [66]], [[67], [68]]], 2⟩ .unique
    (.cons .moveResult (.cons (.moveAssignResult
      (Result.ofPg (0, 0) ⟨.commandOk, [], 0⟩)) (.cons .stringOfResult
        .nil))) rfl).mpr ⟨.inr rfl, by decide⟩

/-- **One row of two columns, moved once**: the second column is gone. -/
theorem moved_row_loses_column :
    ∃ last, Chain.run (.cons .moveResult .nil)
        (Owner.unique.construct (0, 0) ⟨.tuplesOk, [[[65], [66]]], 2⟩)
        = .ok last
      ∧ (base (Owner.unique.construct (0, 0)
          ⟨.tuplesOk, [[[65], [66]]], 2⟩)).valueAt 0 1 = .ok [66]
      ∧ (base last).numCols = 1
      ∧ (base last).valueAt 0 1 = .error .assertion
      ∧ ¬ SameResult (base (Owner.unique.construct (0, 0)
          ⟨.tuplesOk, [[[65], [66]]], 2⟩)) (base last) := by
  refine ⟨_, rfl, rfl, rfl, rfl, fun h => ?_⟩
  exact absurd h.numCols_eq (by decide)

end Holder

end Db
