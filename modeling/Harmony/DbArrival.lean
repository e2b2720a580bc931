import Harmony.DbPipeline

/-!
# The front of `dispatched_`

`Db.Worker.read` leaves open when the replies arrive: `PQisBusy` says so often
that it is not, and then that it is. Here they arrive one after the other,
split into packets in any way, with notifications between them
(`Db.Message`), and what `PQisBusy` says follows from that
(`Db.Reader.isBusy`): it says no as soon as the next reply is there, but also
while nothing is due. Every round of `read` begins with
`dispatched_.front()`, which is undefined for an empty queue and a fault here
(`Db.front`).

The end of a round leaves the loop when `dispatched_` is empty; nothing looks
at it before the first round. So the front is missing exactly when the socket
can be read although no query is outstanding, and `PQisBusy` does not say
otherwise (`Db.Reader.Expects`). It says otherwise only while the marker
behind the last query is still to come
(`Db.Reader.pending_of_dispatched_nil`).

A notification is handed to the event streams, which queue it: it changes
nothing of the state of the session.
-/

namespace Db

/-- **A message of the server.** -/
inductive Message where
  /-- The end of the next result that is due, or the next marker. -/
  | reply
  | notification (channel payload : Bytes)
  deriving DecidableEq, Repr

/-- `std::deque::front`. -/
def front {α : Type} : List α → Except Fault α
  | [] => .error .indexOutOfRange
  | a :: _ => .ok a

/-- **A worker whose session is sent its replies one by one.** -/
structure Reader where
  worker : Worker
  /-- The replies that have arrived and have not been taken yet. -/
  arrived : ℕ

namespace Reader

/-- The input is consumed. -/
def consume (r : Reader) (received : List Message) : Reader :=
  { r with arrived := r.arrived + received.count .reply }

/-- `PQisBusy`: a reply is due and has not arrived. -/
def isBusy (r : Reader) : Bool :=
  decide (r.worker.session.pq.pending ≠ [] ∧ r.arrived = 0)

/-- The replies left by a round. An idle connection yields NULLs without
one. -/
def arrivedNext (r : Reader) : ℕ :=
  if r.worker.session.pq.pending = [] then r.arrived else r.arrived - 1

/-- One round of the outer loop of `read`. The second component is whether
the session fails. -/
def round (w : World) (r : Reader) : Except Fault (Reader × Bool) := do
  let _ ← front r.worker.session.dispatched
  let (k, error) ← r.worker.readOne w
  .ok (⟨k, r.arrivedNext⟩, error)

/-- What the outer loop of `read` has still to do. -/
def remaining (r : Reader) : ℕ :=
  r.worker.session.pq.pending.length + r.worker.session.dispatched.length

end Reader

/-! ## What a round does -/

namespace Worker

variable {w : World} {k k' : Worker}

/-- A handler that is called leaves the queue of the queries sent and the
replies alone. -/
theorem handleResult_some (q : DispatchedQuery) (result : PGresult)
    (alive : Bool) (k : Worker) :
    ∃ k', handleResult w k (some q) result alive = .ok k'
      ∧ k'.session.dispatched = k.session.dispatched
      ∧ k'.session.pq = k.session.pq := by
  cases alive with
  | false => exact ⟨k, rfl, rfl, rfl⟩
  | true =>
    obtain ⟨new, hsubmits, -⟩ := submitAll_submits
      (w.submits q.completionHandler) (k.call q.completionHandler result)
    exact ⟨_, rfl, hsubmits.dispatched, hsubmits.pq⟩

/-- **The inner loop, for a query that is there**, ends without a fault. It
takes replies only, and at least one if it meets a marker. -/
theorem getResults_some (q : DispatchedQuery) (alive error : Bool)
    (items : List Item) (k : Worker) :
    ∃ k' sync error', getResults w (some q) alive error items k
        = .ok (k', sync, error')
      ∧ k'.session.dispatched = k.session.dispatched
      ∧ k'.session.pq.pending.length + sync.toNat ≤ items.length := by
  induction items generalizing k error with
  | nil => exact ⟨_, _, _, rfl, rfl, le_refl _⟩
  | cons item rest ih =>
    cases item with
    | null => exact ⟨_, _, _, rfl, rfl, Nat.le_succ _⟩
    | pipelineSync => exact ⟨_, _, _, rfl, rfl, le_refl _⟩
    | result result =>
      rw [getResults]
      cases treatment result.status with
      | deliver =>
        obtain ⟨k₁, hcall, hdispatched, -⟩ := handleResult_some (w := w) q result
          alive (k.setPending rest)
        obtain ⟨k', sync, error', hrest, hd, hlength⟩ := ih error k₁
        refine ⟨k', sync, error', ?_, hd.trans hdispatched,
          Nat.le_succ_of_le hlength⟩
        dsimp only
        rw [hcall, Except.ok_bind, hrest]
      | drop =>
        obtain ⟨k', sync, error', hrest, hd, hlength⟩ :=
          ih error (k.setPending rest)
        exact ⟨k', sync, error', hrest, hd, Nat.le_succ_of_le hlength⟩
      | fail =>
        obtain ⟨k', sync, error', hrest, hd, hlength⟩ :=
          ih true (k.setPending rest)
        exact ⟨k', sync, error', hrest, hd, Nat.le_succ_of_le hlength⟩

/-- **A round for a query that is there** ends without a fault, and less
remains to be done. -/
theorem readOne_of_dispatched (h : k.session.dispatched ≠ []) :
    ∃ k' error, k.readOne w = .ok (k', error)
      ∧ k'.session.pq.pending.length + k'.session.dispatched.length
        < k.session.pq.pending.length + k.session.dispatched.length := by
  obtain ⟨d, ds, hd⟩ := List.exists_cons_of_ne_nil h
  obtain ⟨k', sync, error, hread, hdispatched, hlength⟩ := getResults_some
    (w := w) d (k.frontAlive (some d)) false k.session.pq.pending k
  unfold readOne
  rw [hd, List.head?_cons]
  dsimp only
  rw [hread]
  refine ⟨if sync then k' else k'.popFront, error, rfl, ?_⟩
  rw [List.length_cons]
  cases sync with
  | true =>
    rw [if_pos rfl, hdispatched, hd, List.length_cons]
    rw [Bool.toNat_true] at hlength
    omega
  | false =>
    rw [if_neg Bool.false_ne_true]
    show k'.session.pq.pending.length + k'.session.dispatched.tail.length < _
    rw [hdispatched, hd, List.tail_cons]
    rw [Bool.toNat_false] at hlength
    omega

end Worker

namespace Reader

variable {w : World} {r r' : Reader}

/-- There is no round without a query. -/
theorem round_of_nil (h : r.worker.session.dispatched = []) :
    r.round w = .error .indexOutOfRange := by
  unfold round
  rw [h]
  rfl

/-- A round for a query that is there. -/
theorem round_of_dispatched (h : r.worker.session.dispatched ≠ []) :
    ∃ r' error, r.round w = .ok (r', error)
      ∧ r.worker.readOne w = .ok (r'.worker, error)
      ∧ r'.remaining < r.remaining := by
  obtain ⟨k', error, hread, hlt⟩ := Worker.readOne_of_dispatched (w := w) h
  obtain ⟨d, ds, hd⟩ := List.exists_cons_of_ne_nil h
  refine ⟨⟨k', r.arrivedNext⟩, error, ?_, hread, hlt⟩
  unfold round
  rw [hread, hd]
  rfl

/-- A round that ends without a fault had a query, and less remains to be
done. -/
theorem round_spec {error : Bool} (h : r.round w = .ok (r', error)) :
    r.worker.session.dispatched ≠ []
    ∧ r.worker.readOne w = .ok (r'.worker, error)
    ∧ r'.remaining < r.remaining := by
  by_cases hd : r.worker.session.dispatched = []
  · rw [round_of_nil hd] at h
    cases h
  · obtain ⟨r₁, error₁, hround, hread, hlt⟩ := round_of_dispatched (w := w) hd
    rw [hround] at h
    cases h
    exact ⟨hd, hread, hlt⟩

end Reader

/-! ## `read`, reply by reply -/

namespace Reader

/-- The outer loop of `read`. The second component is whether the session goes
on. -/
def readLoop (w : World) (r : Reader) : Except Fault (Reader × Bool) :=
  if r.isBusy then .ok (r, true)
  else
    match _h : r.round w with
    | .error f => .error f
    | .ok (r', true) => .ok (r', false)
    | .ok (r', false) =>
      -- everything read already
      if r'.worker.session.dispatched = [] then .ok (r', true)
      else readLoop w r'
  termination_by r.remaining
  decreasing_by exact (round_spec _h).2.2

/-- **`Session::read`**, by what it receives; nothing if the input cannot be
consumed. -/
def read (w : World) (r : Reader) : Option (List Message) →
    Except Fault (Reader × Bool)
  | none => .ok (r, false)
  | some received => readLoop w (r.consume received)

/-- Another session for one that has failed, on a connection of its own. -/
def orRestart (restart : Poll) (arrived : ℕ) (res : Worker × Bool) : Reader :=
  ⟨Worker.orRestart restart res, if res.2 then arrived else 0⟩

end Reader

/-- **What happens to a worker**, with what the server sends. -/
inductive WireEvent where
  | submit (stream : ℕ) (call : SendCall)
  | openStream
  | closeStream (stream : ℕ)
  /-- The socket can be read. -/
  | readable (received : Option (List Message)) (poll restart : Poll)
  /-- The socket can be written. -/
  | writable (flushes : List FlushAnswer) (poll restart : Poll)
  deriving DecidableEq, Repr

namespace Reader

/-- A worker whose session has been polled once. -/
def start (first : Poll) : Reader := ⟨Worker.start first, 0⟩

/-- **One event.** -/
def step (w : World) (r : Reader) : WireEvent → Except Fault Reader
  | .submit stream call => do
    .ok { r with worker := ← r.worker.step w (.submit stream call) }
  | .openStream => do .ok { r with worker := ← r.worker.step w .openStream }
  | .closeStream stream => do
    .ok { r with worker := ← r.worker.step w (.closeStream stream) }
  | .readable received poll restart =>
    if r.worker.session.rev = false then .ok r
    else
      match r.worker.session.readFn with
      | .pollConnection =>
        .ok (orRestart restart r.arrived (r.worker.withSession
          (r.worker.session.pollConnection poll.answer poll.active)))
      | .io => do
        let (r', ok) ← r.read w received
        .ok (orRestart restart r'.arrived (r'.worker, ok))
  | .writable flushes poll restart =>
    if r.worker.session.wev = false then .ok r
    else
      match r.worker.session.writeFn with
      | .pollConnection =>
        .ok (orRestart restart r.arrived (r.worker.withSession
          (r.worker.session.pollConnection poll.answer poll.active)))
      | .io => do
        let res ← r.worker.session.write w flushes
        .ok (orRestart restart r.arrived (r.worker.withSession res))

/-! ### When there is a front -/

/-- **What `read` relies on**: a query is outstanding, or the marker behind the
last one is due and has not arrived. -/
def HasFront (r : Reader) (received : List Message) : Prop :=
  r.worker.session.dispatched ≠ []
  ∨ (r.worker.session.pq.pending ≠ [] ∧ r.arrived = 0
    ∧ Message.reply ∉ received)

/-- That of an event: it matters when a session that is connected consumes its
input. -/
def Expects (r : Reader) : WireEvent → Prop
  | .readable (some received) _ _ =>
    r.worker.session.rev = true → r.worker.session.readFn = .io →
      r.HasFront received
  | _ => True

variable {w : World} {r r' : Reader}

/-- In other words, `PQisBusy` says yes once the input is consumed. -/
theorem hasFront_iff (r : Reader) (received : List Message) :
    r.HasFront received ↔ r.worker.session.dispatched ≠ []
      ∨ (r.consume received).isBusy = true := by
  refine or_congr_right ?_
  unfold isBusy consume
  rw [decide_eq_true_iff, Nat.add_eq_zero_iff, List.count_eq_zero]

/-- The loop is not entered. -/
theorem readLoop_of_isBusy (h : r.isBusy = true) :
    r.readLoop w = .ok (r, true) := by
  rw [readLoop, if_pos h]

/-- The first round has no query. -/
theorem readLoop_of_nil (hbusy : r.isBusy ≠ true)
    (h : r.worker.session.dispatched = []) :
    r.readLoop w = .error .indexOutOfRange := by
  rw [readLoop, if_neg hbusy, round_of_nil h]

/-- **A round and what follows it.** -/
theorem readLoop_of_dispatched (hbusy : r.isBusy ≠ true)
    (h : r.worker.session.dispatched ≠ []) :
    ∃ r' error, r.worker.readOne w = .ok (r'.worker, error)
      ∧ r'.remaining < r.remaining
      ∧ r.readLoop w = if error then .ok (r', false)
        else if r'.worker.session.dispatched = [] then .ok (r', true)
        else r'.readLoop w := by
  obtain ⟨r', error, hround, hread, hlt⟩ := round_of_dispatched (w := w) h
  refine ⟨r', error, hread, hlt, ?_⟩
  rw [readLoop, if_neg hbusy, hround]
  cases error <;> rfl

/-- **The loop of `read`, once it has a query, always has one**: a round that
leaves none is the last. What it does is what `Db.Worker.readAll` does, as
often as `PQisBusy` says that it is not. -/
theorem readLoop_ok (h : r.worker.session.dispatched ≠ [] ∨ r.isBusy = true) :
    ∃ r' ok ready, r.readLoop w = .ok (r', ok)
      ∧ r.worker.readAll w ready = .ok (r'.worker, ok) := by
  induction hn : r.remaining using Nat.strong_induction_on generalizing r with
  | h n ih =>
    by_cases hbusy : r.isBusy = true
    · exact ⟨r, true, 0, readLoop_of_isBusy hbusy, rfl⟩
    · obtain ⟨r₁, error, hread, hlt, hloop⟩ :=
        readLoop_of_dispatched (w := w) hbusy (h.resolve_right hbusy)
      rw [hloop]
      cases error with
      | true =>
        refine ⟨r₁, false, 1, rfl, ?_⟩
        rw [Worker.readAll, hread]
        rfl
      | false =>
        rw [if_neg Bool.false_ne_true]
        by_cases hd : r₁.worker.session.dispatched = []
        · refine ⟨r₁, true, 1, if_pos hd, ?_⟩
          rw [Worker.readAll, hread]
          exact if_pos hd
        · obtain ⟨r', ok, ready, hrest, hall⟩ :=
            ih r₁.remaining (hn ▸ hlt) (Or.inl hd) rfl
          refine ⟨r', ok, ready + 1, (if_neg hd).trans hrest, ?_⟩
          rw [Worker.readAll, hread]
          exact (if_neg hd).trans hall

end Reader

/-! ### Steps -/

/-- The only fault of a batch is a query with too many parameters. -/
theorem Session.sendBatch_error {w : World} {n : ℕ} {s : Session} {f : Fault}
    (h : s.sendBatch w n = .error f) : f = .assertion := by
  induction n generalizing s with
  | zero => cases h
  | succ n ih =>
    rw [sendBatch] at h
    cases hq : s.queued with
    | nil =>
      rw [hq] at h
      cases h
    | cons q rest =>
      rw [hq] at h
      dsimp only at h
      split_ifs at h with hfits hsend hsync
      · cases h
        rfl
      · exact ih h

theorem Session.write_error {w : World} {answers : List FlushAnswer}
    {s : Session} {f : Fault} (h : s.write w answers = .error f) :
    f = .assertion := by
  induction answers generalizing s with
  | nil => cases h
  | cons a answers ih =>
    cases a with
    | wouldBlock => cases h
    | failed => cases h
    | done =>
      rw [write] at h
      cases hbatch : Session.sendBatch w 20
          { s with pq := { s.pq with unflushed := false } } with
      | error f' =>
        rw [hbatch] at h
        cases h
        exact Session.sendBatch_error hbatch
      | ok res =>
        rw [hbatch, Except.ok_bind] at h
        dsimp only at h
        split_ifs at h
        exact ih h

namespace Reader

variable {w : World} {r r' : Reader}

/-- **A read takes the front of an empty queue**, in its first round, unless it
has what it relies on. Then it does what `Db.Worker.read` does. -/
theorem read_cases (r : Reader) (received : List Message) :
    (¬ r.HasFront received
      ∧ r.read w (some received) = .error .indexOutOfRange)
    ∨ (r.HasFront received
      ∧ ∃ r' ok ready, r.read w (some received) = .ok (r', ok)
        ∧ r.worker.read w true ready = .ok (r'.worker, ok)) := by
  by_cases hfront : r.HasFront received
  · exact Or.inr ⟨hfront, readLoop_ok ((r.hasFront_iff received).mp hfront)⟩
  · refine Or.inl ⟨hfront, ?_⟩
    rw [hasFront_iff, not_or, not_not] at hfront
    exact readLoop_of_nil hfront.2 hfront.1

/-- What a read does to the worker. -/
theorem read_worker {received : Option (List Message)} {ok : Bool}
    (h : r.read w received = .ok (r', ok)) :
    ∃ consumed ready, r.worker.read w consumed ready
      = .ok (r'.worker, ok) := by
  cases received with
  | none =>
    cases h
    exact ⟨false, 0, rfl⟩
  | some received =>
    rcases r.read_cases (w := w) received with ⟨-, hread⟩
      | ⟨-, r₁, ok₁, ready, hread, hworker⟩
    · rw [hread] at h
      cases h
    · rw [hread] at h
      cases h
      exact ⟨true, ready, hworker⟩

/-- **A step finds every front it takes** if and only if the session has what
it relies on. -/
theorem step_ne_error_iff (r : Reader) (e : WireEvent) :
    r.step w e ≠ .error .indexOutOfRange ↔ r.Expects e := by
  cases e with
  | submit stream call => exact iff_of_true (fun h => by cases h) trivial
  | openStream => exact iff_of_true (fun h => by cases h) trivial
  | closeStream stream => exact iff_of_true (fun h => by cases h) trivial
  | readable received poll restart =>
    cases received with
    | none =>
      refine iff_of_true (fun h => ?_) trivial
      rw [step] at h
      split_ifs at h
      cases hfn : r.worker.session.readFn <;>
      · rw [hfn] at h
        cases h
    | some received =>
      rw [step, Expects]
      cases hrev : r.worker.session.rev with
      | false => exact iff_of_true (fun h => by cases h) (fun h => by cases h)
      | true =>
        rw [if_neg (Bool.noConfusion : ¬ true = false)]
        cases hfn : r.worker.session.readFn with
        | pollConnection =>
          exact iff_of_true (fun h => by cases h) (fun _ h => by cases h)
        | io =>
          dsimp only
          rcases r.read_cases (w := w) received with ⟨hfront, hread⟩
            | ⟨hfront, r', ok, -, hread, -⟩
          · rw [hread]
            exact iff_of_false (fun h => h rfl) fun h => hfront (h rfl rfl)
          · rw [hread]
            exact iff_of_true (fun h => by cases h) fun _ _ => hfront
  | writable flushes poll restart =>
    refine iff_of_true (fun h => ?_) trivial
    rw [step] at h
    split_ifs at h
    cases hfn : r.worker.session.writeFn with
    | pollConnection =>
      rw [hfn] at h
      cases h
    | io =>
      rw [hfn] at h
      dsimp only at h
      cases hwrite : r.worker.session.write w flushes with
      | ok res =>
        rw [hwrite] at h
        cases h
      | error f =>
        rw [hwrite] at h
        cases h
        exact absurd (Session.write_error hwrite) (by decide)

/-- **A step is one of the worker**, with some answers of `PQisBusy`. -/
theorem step_worker {e : WireEvent} (h : r.step w e = .ok r') :
    ∃ e', r.worker.step w e' = .ok r'.worker := by
  cases e with
  | submit stream call =>
    cases h
    exact ⟨.submit stream call, rfl⟩
  | openStream =>
    cases h
    exact ⟨.openStream, rfl⟩
  | closeStream stream =>
    cases h
    exact ⟨.closeStream stream, rfl⟩
  | readable received poll restart =>
    rw [step] at h
    by_cases hrev : r.worker.session.rev = false
    · rw [if_pos hrev] at h
      cases h
      refine ⟨.readable true 0 poll restart, ?_⟩
      rw [Worker.step, if_pos hrev]
    · rw [if_neg hrev] at h
      cases hfn : r.worker.session.readFn with
      | pollConnection =>
        rw [hfn] at h
        cases h
        refine ⟨.readable true 0 poll restart, ?_⟩
        rw [Worker.step, if_neg hrev, hfn]
        rfl
      | io =>
        rw [hfn] at h
        obtain ⟨⟨r₁, ok⟩, hread, h⟩ := Except.exists_of_bind_eq_ok h
        cases h
        obtain ⟨consumed, ready, hworker⟩ := read_worker hread
        refine ⟨.readable consumed ready poll restart, ?_⟩
        rw [Worker.step, if_neg hrev, hfn]
        dsimp only
        rw [hworker]
        rfl
  | writable flushes poll restart =>
    refine ⟨.writable flushes poll restart, ?_⟩
    rw [step] at h
    rw [Worker.step]
    by_cases hwev : r.worker.session.wev = false
    · rw [if_pos hwev] at h ⊢
      cases h
      rfl
    · rw [if_neg hwev] at h ⊢
      cases hfn : r.worker.session.writeFn with
      | pollConnection =>
        rw [hfn] at h
        cases h
        rfl
      | io =>
        rw [hfn] at h
        obtain ⟨res, hwrite, h⟩ := Except.exists_of_bind_eq_ok h
        cases h
        dsimp only
        rw [hwrite]
        rfl

/-- **A run is one of the worker**, so that the session and the client library
stay in step. -/
theorem aligned_of_exec {first : Poll} {events : List WireEvent}
    (h : Run.exec (step w) (start first) events = .ok r) :
    r.worker.Aligned w := by
  have hworker : ∃ events', Run.exec (Worker.step w) (Worker.start first) events'
      = .ok r.worker :=
    Run.exec_of_simulation (f := Reader.worker) (fun _ _ _ => step_worker) h
  obtain ⟨events', hrun⟩ := hworker
  exact Worker.Aligned.exec hrun

/-- While no query is outstanding, nothing is due, or the marker behind the
last one. -/
theorem pending_of_dispatched_nil {first : Poll} {events : List WireEvent}
    (h : Run.exec (step w) (start first) events = .ok r)
    (hd : r.worker.session.dispatched = []) :
    r.worker.session.pq.pending = []
      ∨ r.worker.session.pq.pending = [.pipelineSync] := by
  have hpending := (aligned_of_exec h).pending
  rw [hd] at hpending
  exact hpending

/-- **`read` takes the front of `dispatched_` only when there is one** if and
only if a query is outstanding whenever a session that is connected consumes
its input, or else the marker behind the last query has still to arrive. This
holds of every single step, in whatever state, and of every run. -/
theorem front_taken_iff (w : World) :
    (∀ r e, step w r e ≠ .error .indexOutOfRange ↔ r.Expects e)
    ∧ ∀ first events,
      Run.exec (step w) (start first) events ≠ .error .indexOutOfRange
        ↔ Run.Throughout (step w) Expects (start first) events :=
  ⟨step_ne_error_iff, fun first events =>
    Run.exec_ne_error_iff step_ne_error_iff (start first) events⟩

end Reader

/-! ### Two runs -/

/-- The connection is made. -/
def connected : WireEvent := .readable none ⟨0, .ok true true⟩ ⟨0, .failed⟩

/-- A packet arrives. -/
def packet (received : List Message) : WireEvent :=
  .readable (some received) ⟨0, .failed⟩ ⟨0, .failed⟩

/-- A notification to a session without queries. -/
def idleRun : List WireEvent := [connected, packet [.notification [] []]]

/-- A query whose marker comes in a packet of its own. -/
def lateMarkerRun : List WireEvent :=
  [connected, .openStream, .submit 0 (.query []),
    .writable [.done] ⟨0, .failed⟩ ⟨0, .failed⟩, packet [.reply],
    packet [.reply]]

/-- Both end with the front of an empty queue. -/
theorem front_of_empty_dispatched :
    Run.exec (Reader.step .chatty) (Reader.start ⟨0, .reading 3⟩) idleRun
      = .error .indexOutOfRange
    ∧ Run.exec (Reader.step .chatty) (Reader.start ⟨0, .reading 3⟩) lateMarkerRun
      = .error .indexOutOfRange := by
  constructor
  · refine Run.error_of_map_exec (f := fun _ => ()) ?_
    decide +kernel
  · refine Run.error_of_map_exec (f := fun _ => ()) ?_
    decide +kernel

/-- While the marker is still to come, a notification does no harm. -/
example : ((Run.exec (Reader.step .chatty) (Reader.start ⟨0, .reading 3⟩)
    [connected, .openStream, .submit 0 (.query []),
      .writable [.done] ⟨0, .failed⟩ ⟨0, .failed⟩, packet [.reply],
      packet [.notification [] []]]).map fun r => r.arrived) = .ok 0 := by
  decide +kernel

end Db
