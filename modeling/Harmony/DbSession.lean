import Harmony.Run
import Harmony.StringView
import Mathlib.Data.Finset.Basic

/-!
# The database session

Every worker has one session with the database. Queries are queued by the
`send_*` functions, sent in batches when the socket can be written
(`Db.Session.write`), and their results are read and handed to their
completion handlers when it can be read (`Db.Worker.read`). Until the
connection is made, both watchers poll the handshake instead. When anything
fails, the worker replaces the session by a new one.

The client library is not ours: what it answers is a parameter (`Db.World`)
or comes with an event. Of its state the model keeps what the session depends
on: the replies still to be read, in the order of the queries, and whether
bytes wait in its output buffer (`Db.LibPq`). In pipeline mode a query yields
its one result, then a NULL, and a sync point after it yields a marker
without a NULL; an idle connection yields NULLs.

A completion handler is known by its number, its place among the queries
accepted so far (`Db.Worker.submitted`). Notifications change none of this
and are left out.
-/

namespace Db

/-! ## Queries -/

/-- `ExecStatusType`, but for the marker of a sync point. -/
inductive ResultStatus where
  | commandOk
  | tuplesOk
  | singleTuple
  | nonfatalError
  | fatalError
  | pipelineAborted
  | emptyQuery
  | badResponse
  | copyIn
  | copyOut
  | copyBoth
  deriving DecidableEq, Repr

/-- What a prepared statement is prepared from. -/
inductive PrepareSource where
  | command (text : Bytes)
  | file (fd : ℕ)
  deriving DecidableEq, Repr

/-- The `arg` of a query. -/
inductive QueryArg where
  | query (command : Bytes)
  | queryParam (command : Bytes) (params : List Bytes)
  | prepare (statement : Bytes) (source : PrepareSource)
  | queryPrepared (statement : Bytes) (params : List Bytes)
  deriving DecidableEq, Repr

/-- **A queued query.** -/
structure Query where
  streamSerial : ℕ
  isSyncPoint : Bool
  arg : QueryArg
  /-- The number of its completion handler. -/
  completionHandler : ℕ
  deriving DecidableEq, Repr

/-- **A query that has been sent.** -/
structure DispatchedQuery where
  streamSerial : ℕ
  isSyncPoint : Bool
  completionHandler : ℕ
  deriving DecidableEq, Repr

/-- **A result**: the query it answers, by the number of its handler, and its
status. -/
structure PGresult where
  query : ℕ
  status : ResultStatus
  deriving DecidableEq, Repr

/-! ## The client library -/

/-- What `PQgetResult` yields. -/
inductive Item where
  | result (r : PGresult)
  | null
  | pipelineSync
  deriving DecidableEq, Repr

/-- **The state of the client library.** -/
structure LibPq where
  /-- What is still to be yielded for the queries sent. -/
  pending : List Item
  /-- Whether bytes wait in the output buffer. -/
  unflushed : Bool
  deriving DecidableEq, Repr

/-- A `send_*` call of a handler. -/
inductive SendCall where
  | query (command : Bytes)
  | queryParams (command : Bytes) (params : List Bytes)
  | prepared (statement command : Bytes)
  | preparedFile (statement : Bytes) (fd : ℕ)
  | queryPrepared (statement : Bytes) (params : List Bytes)
  deriving DecidableEq, Repr

/-- **What the world answers**, query by query. -/
structure World where
  /-- Whether `PQsendQuery` and its kind accept it. -/
  sendOk : ℕ → Bool
  /-- Whether `PQpipelineSync` succeeds behind it. -/
  syncOk : ℕ → Bool
  /-- Whether bytes are left in the output buffer once it is sent. -/
  leaves : ℕ → Bool
  /-- The status of its result. -/
  status : ℕ → ResultStatus
  /-- The queries its completion handler submits, with their streams. -/
  submits : ℕ → List (ℕ × SendCall)

/-- The items a query yields. -/
def World.reply (w : World) (q : DispatchedQuery) : List Item :=
  [.result ⟨q.completionHandler, w.status q.completionHandler⟩, .null]
    ++ if q.isSyncPoint then [.pipelineSync] else []

/-- What `PQconnectPoll` answers once it no longer says `ACTIVE`. -/
inductive PollAnswer where
  /-- Wait until the socket, which may be a new one, can be read. -/
  | reading (fd : ℕ)
  | writing (fd : ℕ)
  /-- The connection is made; whether it can be made non-blocking and whether
  it enters pipeline mode. -/
  | ok (nonblocking pipeline : Bool)
  | failed
  deriving DecidableEq, Repr

/-- The answers of `PQconnectPoll` to one poll. -/
structure Poll where
  /-- How often it says `ACTIVE` first. -/
  active : ℕ
  answer : PollAnswer
  deriving DecidableEq, Repr

/-- What `PQflush` answers. -/
inductive FlushAnswer where
  | done
  | wouldBlock
  | failed
  deriving DecidableEq, Repr

/-! ## The session -/

/-- What the two watchers call. -/
inductive SessionFn where
  | pollConnection
  /-- `read` or `write`. -/
  | io
  deriving DecidableEq, Repr

/-- **A session.** Of the watchers it matters whether they are active. -/
structure Session where
  connected : Bool
  readFn : SessionFn
  writeFn : SessionFn
  fd : Option ℕ
  wev : Bool
  rev : Bool
  queued : List Query
  dispatched : List DispatchedQuery
  preparedQueries : List Bytes
  pq : LibPq
  deriving DecidableEq, Repr

namespace Session

/-- A session before its first poll. -/
def init : Session where
  connected := false
  readFn := .pollConnection
  writeFn := .pollConnection
  fd := none
  wev := false
  rev := false
  queued := []
  dispatched := []
  preparedQueries := []
  pq := ⟨[], false⟩

/-- `Session::connection_made`. The second component is whether it returned
zero. -/
def connectionMade (s : Session) (nonblocking pipeline : Bool) :
    Session × Bool :=
  let s := { s with readFn := .io, writeFn := .io }
  if nonblocking = false then (s, false)
  else if pipeline = false then (s, false)
  else ({ s with connected := true }, true)

/-- **`Session::poll_connection`** on an answer other than `ACTIVE`. -/
def pollAnswer (s : Session) : PollAnswer → Session × Bool
  | .reading fd =>
    -- stop polling for write
    let s := { s with wev := false }
    let s := if s.fd ≠ some fd then { s with fd := some fd, rev := false } else s
    ({ s with rev := true }, true)
  | .writing fd =>
    let s :=
      if s.fd ≠ some fd then { s with fd := some fd, rev := false, wev := false }
      else s
    ({ s with wev := true }, true)
  | .ok nonblocking pipeline => s.connectionMade nonblocking pipeline
  | .failed => (s, false)

/-- `Session::poll_connection`, which calls itself as long as the answer is
`ACTIVE`. -/
def pollConnection (s : Session) (answer : PollAnswer) : ℕ → Session × Bool
  | 0 => s.pollAnswer answer
  | active + 1 => s.pollConnection answer active

/-- A new session, after the poll of its constructor. -/
def create (first : Poll) : Session :=
  (init.pollConnection first.answer first.active).1

/-! ### Queueing -/

/-- The end of every `send_*` function: the query is queued, and sending it
starts. -/
def enqueue (s : Session) (streamSerial : ℕ) (arg : QueryArg)
    (completionHandler : ℕ) : Session :=
  { s with
    queued := s.queued ++ [⟨streamSerial, true, arg, completionHandler⟩]
    wev := true }

/-- `Session::check_prepared_query`. -/
def checkPreparedQuery (s : Session) (statement : Bytes) : Bool :=
  decide (statement ∈ s.preparedQueries)

/-- `Session::add_prepared_query`. -/
def addPreparedQuery (s : Session) (statement : Bytes) : Session :=
  if statement ∈ s.preparedQueries then s
  else { s with preparedQueries := statement :: s.preparedQueries }

/-- `Session::send_query`. -/
def sendQuery (s : Session) (stream : ℕ) (command : Bytes) (cb : ℕ) : Session :=
  s.enqueue stream (.query command) cb

/-- `Session::send_query_params`. -/
def sendQueryParams (s : Session) (stream : ℕ) (command : Bytes)
    (vec : List Bytes) (cb : ℕ) : Session :=
  s.enqueue stream (.queryParam command vec) cb

/-- `Session::send_prepared`, from a text. -/
def sendPrepared (s : Session) (stream : ℕ) (statement command : Bytes)
    (cb : ℕ) : Session :=
  (s.addPreparedQuery statement).enqueue stream
    (.prepare statement (.command command)) cb

/-- `Session::send_prepared`, from a file. -/
def sendPreparedFile (s : Session) (stream : ℕ) (statement : Bytes) (fd : ℕ)
    (cb : ℕ) : Session :=
  (s.addPreparedQuery statement).enqueue stream
    (.prepare statement (.file fd)) cb

/-- `Session::send_query_prepared`. -/
def sendQueryPrepared (s : Session) (stream : ℕ) (statement : Bytes)
    (params : List Bytes) (cb : ℕ) : Session :=
  s.enqueue stream (.queryPrepared statement params) cb

/-- One of the five. -/
def send (s : Session) (stream : ℕ) (cb : ℕ) : SendCall → Session
  | .query command => s.sendQuery stream command cb
  | .queryParams command params => s.sendQueryParams stream command params cb
  | .prepared statement command => s.sendPrepared stream statement command cb
  | .preparedFile statement fd => s.sendPreparedFile stream statement fd cb
  | .queryPrepared statement params =>
    s.sendQueryPrepared stream statement params cb

/-! ### Sending -/

/-- The assertion on the number of parameters. -/
def QueryArg.fits : QueryArg → Bool
  | .queryParam _ params => decide (params.length ≤ 20)
  | .queryPrepared _ params => decide (params.length ≤ 20)
  | _ => true

/-- A batch of at most `n` queries. The second component is whether the
session goes on. -/
def sendBatch (w : World) : ℕ → Session → Except Fault (Session × Bool)
  | 0, s => .ok (s, true)
  | n + 1, s =>
    match s.queued with
    | [] => .ok (s, true)
    | q :: rest =>
      if QueryArg.fits q.arg = false then .error .assertion
      else if w.sendOk q.completionHandler = false then .ok (s, false)
      else if q.isSyncPoint && !w.syncOk q.completionHandler then .ok (s, false)
      else
        let d : DispatchedQuery :=
          ⟨q.streamSerial, q.isSyncPoint, q.completionHandler⟩
        sendBatch w n { s with
          queued := rest
          dispatched := s.dispatched ++ [d]
          pq := ⟨s.pq.pending ++ w.reply d, w.leaves q.completionHandler⟩ }

/-- **`Session::write`**, by what `PQflush` answers in the call; after the
answers given it would block. -/
def write (w : World) : List FlushAnswer → Session →
    Except Fault (Session × Bool)
  | [], s => .ok ({ s with pq := { s.pq with unflushed := true } }, true)
  | .wouldBlock :: _, s =>
    .ok ({ s with pq := { s.pq with unflushed := true } }, true)
  | .failed :: _, s => .ok (s, false)
  | .done :: answers, s => do
    -- send queries in batches of 20
    let (s, ok) ← sendBatch w 20 { s with pq := { s.pq with unflushed := false } }
    if ok = false then .ok (s, false)
    -- wrote everything
    else if s.queued = [] then .ok ({ s with wev := false }, true)
    else write w answers s

end Session

/-! ## The worker -/

/-- A call of a completion handler. -/
structure HandlerCall where
  handler : ℕ
  result : PGresult
  deriving DecidableEq, Repr

/-- **A worker**, as far as its database session goes. -/
structure Worker where
  session : Session
  aliveStreams : Finset ℕ
  nextStreamSerial : ℕ
  /-- The streams of the queries accepted so far. -/
  submitted : List ℕ
  /-- The calls of completion handlers so far. -/
  calls : List HandlerCall

namespace Worker

/-- A handler of a stream calls one of the `send_*` functions. A stream that
is gone calls nothing. -/
def submit (k : Worker) (stream : ℕ) (call : SendCall) : Worker :=
  if stream ∈ k.aliveStreams then
    { k with
      session := k.session.send stream k.submitted.length call
      submitted := k.submitted ++ [stream] }
  else k

/-- Several calls in turn. -/
def submitAll (k : Worker) (l : List (ℕ × SendCall)) : Worker :=
  l.foldl (fun k c => k.submit c.1 c.2) k

/-- A completion handler is called. -/
def call (k : Worker) (handler : ℕ) (result : PGresult) : Worker :=
  { k with calls := k.calls ++ [⟨handler, result⟩] }

/-- `handle_result`: the handler is called, and may submit further queries. A
call through the front of an empty queue is a fault. -/
def handleResult (w : World) (k : Worker) (query : Option DispatchedQuery)
    (result : PGresult) (alive : Bool) : Except Fault Worker :=
  match query with
  | none => .error .indexOutOfRange
  | some q =>
    if alive then
      .ok ((k.call q.completionHandler result).submitAll
        (w.submits q.completionHandler))
    else .ok k

/-- The replies still to be read. -/
def setPending (k : Worker) (pending : List Item) : Worker :=
  { k with session := { k.session with
      pq := { k.session.pq with pending := pending } } }

/-- What `read` does with a result of a status. -/
inductive Treatment where
  /-- It is handed to the completion handler. -/
  | deliver
  /-- It is dropped. -/
  | drop
  /-- It is dropped, and the session fails. -/
  | fail
  deriving DecidableEq, Repr

/-- The `switch` of `read`. -/
def treatment : ResultStatus → Treatment
  | .commandOk => .deliver
  | .tuplesOk => .deliver
  | .singleTuple => .deliver
  | .nonfatalError => .deliver
  | .fatalError => .deliver
  | .pipelineAborted => .deliver
  | .emptyQuery => .drop
  | .badResponse => .fail
  | .copyIn => .fail
  | .copyOut => .fail
  | .copyBoth => .fail

/-- The inner loop of `read`, on the replies still to be read: the worker
after it, whether it met the marker of a sync point, and whether the session
fails. -/
def getResults (w : World) (query : Option DispatchedQuery) (alive : Bool)
    (error : Bool) : List Item → Worker →
    Except Fault (Worker × Bool × Bool)
  | [], k => .ok (k.setPending [], false, error)
  | .null :: rest, k => .ok (k.setPending rest, false, error)
  | .pipelineSync :: rest, k => .ok (k.setPending rest, true, error)
  | .result r :: rest, k =>
    match treatment r.status with
    | .deliver => do
      let k ← handleResult w (k.setPending rest) query r alive
      getResults w query alive error rest k
    | .drop => getResults w query alive error rest (k.setPending rest)
    | .fail => getResults w query alive true rest (k.setPending rest)

/-- `worker_->is_stream_alive`, for the stream of the query at the front. With
no query there, `front()` is undefined in the code; what it would read is taken
not to be alive here, and `handleResult` makes the use of it a fault. That a round
begins with `front()` of an empty queue is told by `Db.Reader`. -/
def frontAlive (k : Worker) (query : Option DispatchedQuery) : Bool :=
  match query with
  | some q => decide (q.streamSerial ∈ k.aliveStreams)
  | none => false

/-- The query at the front is done with. -/
def popFront (k : Worker) : Worker :=
  { k with session := { k.session with
      dispatched := k.session.dispatched.tail } }

/-- One round of the outer loop of `read`. The second component is whether
the session fails. Taking the front of an empty queue is undefined in the code and
a fault of `Db.Reader.step`; this round goes on without a query. -/
def readOne (w : World) (k : Worker) : Except Fault (Worker × Bool) := do
  let query := k.session.dispatched.head?
  let (k, pipelineSync, error) ← getResults w query (k.frontAlive query) false
    k.session.pq.pending k
  .ok (if pipelineSync then k else k.popFront, error)

/-- **`Session::read`**, after its input was consumed; `PQisBusy` says `ready`
times that it is not. The second component is whether the session goes on. -/
def readAll (w : World) : ℕ → Worker → Except Fault (Worker × Bool)
  | 0, k => .ok (k, true)
  | ready + 1, k => do
    let (k, error) ← readOne w k
    if error then .ok (k, false)
    -- everything read already
    else if k.session.dispatched = [] then .ok (k, true)
    else readAll w ready k

/-- `Session::read`. -/
def read (w : World) (k : Worker) (consumed : Bool) (ready : ℕ) :
    Except Fault (Worker × Bool) :=
  if consumed = false then .ok (k, false) else readAll w ready k

/-- `Worker::restart_db_session`. -/
def restartDbSession (k : Worker) (first : Poll) : Worker :=
  { k with session := Session.create first }

/-- Another session for one that has failed. -/
def orRestart (restart : Poll) (r : Worker × Bool) : Worker :=
  if r.2 then r.1 else r.1.restartDbSession restart

/-- The session after a poll or a `write`. -/
def withSession (k : Worker) (r : Session × Bool) : Worker × Bool :=
  ({ k with session := r.1 }, r.2)

end Worker

/-- **What happens to a worker**, with what the client library answers. The
poll `restart` is the first one of the session that replaces this one, should
it fail. -/
inductive Event where
  /-- A handler of a stream submits a query. -/
  | submit (stream : ℕ) (call : SendCall)
  /-- `add_stream`. -/
  | openStream
  /-- `remove_stream`. -/
  | closeStream (stream : ℕ)
  /-- The socket can be read. -/
  | readable (consumed : Bool) (ready : ℕ) (poll restart : Poll)
  /-- The socket can be written. -/
  | writable (flushes : List FlushAnswer) (poll restart : Poll)
  deriving DecidableEq, Repr

namespace Worker

/-- A worker whose session has been polled once. -/
def start (first : Poll) : Worker := ⟨Session.create first, ∅, 0, [], []⟩

/-- **One event.** A watcher that is not active reports nothing. -/
def step (w : World) (k : Worker) : Event → Except Fault Worker
  | .submit stream call => .ok (k.submit stream call)
  | .openStream =>
    .ok { k with
      aliveStreams := insert k.nextStreamSerial k.aliveStreams
      nextStreamSerial := k.nextStreamSerial + 1 }
  | .closeStream stream =>
    .ok { k with aliveStreams := k.aliveStreams.erase stream }
  | .readable consumed ready poll restart =>
    if k.session.rev = false then .ok k
    else
      match k.session.readFn with
      | .pollConnection =>
        .ok (orRestart restart (k.withSession
          (k.session.pollConnection poll.answer poll.active)))
      | .io => do
        let r ← read w k consumed ready
        .ok (orRestart restart r)
  | .writable flushes poll restart =>
    if k.session.wev = false then .ok k
    else
      match k.session.writeFn with
      | .pollConnection =>
        .ok (orRestart restart (k.withSession
          (k.session.pollConnection poll.answer poll.active)))
      | .io => do
        let r ← k.session.write w flushes
        .ok (orRestart restart (k.withSession r))

end Worker

end Db
