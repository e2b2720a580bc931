import Harmony.DbResult
import Harmony.TaskWorker

/-!
# Queries by coroutines

A handler that is a coroutine queries the database through a `Connection`, whose
functions are coroutines themselves: each queues a query with its own handle as
the completion handler and is suspended until the result is there.
`query_prepared` is the one that may wait twice: where the statement is not
prepared yet, it waits for another coroutine, which prepares it from its query
file.

Of the session these need the set of the statements that are prepared; the
queue is that of the worker (`CoroWorld.queue`). What the query files are is a
parameter.
-/

namespace Db

/-- What the functions of `Connection` call that is no coroutine. -/
inductive SessionCall where
  | checkPreparedQuery (statement : Bytes)
  | openQueryFile (statement : Bytes)
  /-- Part of `send_prepared`. -/
  | addPreparedQuery (statement : Bytes)
  deriving DecidableEq, Repr

/-- What it does, and what it returns; a truth value is 0 or 1. Opening a query
file yields its descriptor, or -1. -/
def SessionCall.perform (files : Bytes → ℤ) : SessionCall → Session → ℤ × Session
  | .checkPreparedQuery statement, s =>
    ((s.checkPreparedQuery statement).toNat, s)
  | .openQueryFile statement, s => (files statement, s)
  | .addPreparedQuery statement, s => (0, s.addPreparedQuery statement)

/-- What a coroutine returns. -/
inductive Returned where
  /-- An `AwaitableTask<Result>`. -/
  | result (r : Result)
  /-- A `Task<>`. -/
  | nothing
  deriving DecidableEq, Repr

/-- `Result(bool error, const char *message)`. It leaves the two counts
uninitialised: they are what the memory held before. -/
def Result.ofMessage (memory : ℤ × ℤ) (message : Bytes) : Result where
  pgResult := none
  status := .error
  nRows := memory.1
  nCols := memory.2
  errorMessage := some message
  ptr := none

/-- `is_error`. -/
def ResultBase.isError (r : ResultBase) : Bool := decide (r.status = .error)

namespace Connection

/-- A coroutine that works for a stream. -/
abbrev Coro : Type := Coroutine QueryArg Returned SessionCall ℤ

/-- `Connection::query`. -/
def query (command : Bytes) : Coro := .query (.query command)

/-- `Connection::query_params`. -/
def queryParams (command : Bytes) (params : List Bytes) : Coro :=
  .query (.queryParam command params)

/-- `Connection::prepare`, from a text. -/
def prepare (statement command : Bytes) : Coro :=
  .act (.addPreparedQuery statement) fun _ =>
    .query (.prepare statement (.command command))

/-- `Connection::prepare`, from a file. -/
def prepareFile (statement : Bytes) (fd : ℕ) : Coro :=
  .act (.addPreparedQuery statement) fun _ =>
    .query (.prepare statement (.file fd))

/-- **`Connection::query_prepared`**. -/
def queryPrepared (memory : ℤ × ℤ) (statement : Bytes) (params : List Bytes) :
    Coro :=
  let send : Coro := .query (.queryPrepared statement params)
  .act (.checkPreparedQuery statement) fun known =>
    if known ≠ 0 then send
    else
      .act (.openQueryFile statement) fun fd =>
        if fd < 0 then
          .ret (.result (.ofMessage memory "Couldn't find query file".toUTF8.toList))
        else
          .await (prepareFile statement fd.toNat) fun res =>
            match res with
            | .result r => if r.isError then .ret (.result r) else send
            | .nothing => send

/-! ## A run -/

/-- A handler that queries a statement, and is done. -/
def lookUp (statement : Bytes) : Coro :=
  .await (queryPrepared (0, 0) statement []) fun _ => .ret .nothing

/-- A result without rows. -/
def noRows : Returned := .result (.ofPg (0, 0) ⟨.commandOk, [], 0⟩)

/-- Two handlers query one statement. The first one, which has it prepared,
loses its stream before the result is read; a third one takes the places of its
frames. Then the results are read, that of the first handler too. -/
def threeLookUps : List (ProgramEvent Bytes Returned) :=
  [.start (bytes "a"), .start (bytes "a"), .close 0, .start (bytes "b"),
    .answer noRows, .answer noRows, .answer noRows]

/-- The second handler has ended. The third one waits for the query itself, with
two frames: the one that had the statement prepared is gone. -/
theorem frames_threeLookUps :
    ∃ k, Run.exec (TaskWorker.step (SessionCall.perform fun _ => 3) lookUp)
        (TaskWorker.start Session.init) threeLookUps = .ok k
      ∧ k.world.frames.map (Option.map CoroFrame.owner)
        = [some 2, some 2, none, some 1, none]
      ∧ (∀ x f, k.world.frame x = some f → (k.roots f.owner).isSome = true)
      ∧ ∃ hs leaf K, CoroWorld.Chain k.world.frame 2 0 none hs leaf K
        ∧ TaskWorker.handles k.world.queue 2 = [leaf]
        ∧ ∀ x f, k.world.frame x = some f → (f.owner = 2 ↔ x ∈ hs) := by
  obtain ⟨k, hk, hseen⟩ := Run.exists_of_map_exec
    (f := fun k => (k.world.frames.map (Option.map CoroFrame.owner), k.roots 2,
      (k.world.frame 0).map CoroFrame.progress))
    (show (Run.exec (TaskWorker.step (SessionCall.perform fun _ => 3) lookUp)
        (TaskWorker.start Session.init) threeLookUps).map _
      = .ok ([some 2, some 2, none, some 1, none], some 0, some .waiting) by
      decide +kernel)
  obtain ⟨howned, hframes⟩ := TaskWorker.frames_of_run _ _ hk
  obtain ⟨hheap, hroot, hwaits⟩ : _ ∧ _ ∧ _ :=
    ⟨congrArg Prod.fst hseen, congrArg (fun o => o.2.1) hseen,
      congrArg (fun o => o.2.2) hseen⟩
  refine ⟨k, hk, hheap, howned, ?_⟩
  rcases hframes 2 0 hroot with ⟨v, hf, -⟩ | hwaiting
  · simp only [hf] at hwaits
    cases hwaits
  · exact hwaiting

end Connection

end Db
