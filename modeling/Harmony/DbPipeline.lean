import Harmony.DbSession

/-!
# The session and the client library in step

The session keeps the queries it has sent in `dispatched_`, the client
library keeps the replies to them. `read` must keep the two in step although
a NULL ends a query and the marker of a sync point does not, and although it
may stop in front of a marker, which then comes before the next query.

For each part of the session this module says once what it does
(`Db.Session.Writes`, `Db.Session.Polls`, `Db.Worker.Submits`,
`Db.Worker.answered`), and derives the invariant `Db.Worker.Aligned` from
that: the replies still to be read are those of the queries in `dispatched_`,
in their order, with at most one marker in front; and the handlers that were
called, those of the queries sent and those of the queries queued are, in this
order, in the order of submission.

That a handler gets the result of its own query, and that the handlers are
called in the order of submission, follows for every run:
`Db.Worker.own_results_in_order`.
-/

namespace Db

/-- The entry of a query once it is sent. -/
def Query.dispatched (q : Query) : DispatchedQuery :=
  ⟨q.streamSerial, q.isSyncPoint, q.completionHandler⟩

/-- What the session is engaged in: whether it is connected, and what its
watchers call. -/
def Session.phase (s : Session) : Bool × SessionFn × SessionFn :=
  (s.connected, s.readFn, s.writeFn)

/-! ## What sending does -/

/-- **Queries are sent**: those moved from the queue are in `dispatched_`, in
their order, and their replies are due; nothing else but the watcher of the
socket and the output buffer changes. -/
structure Session.Sends (w : World) (s s' : Session) (moved : List Query) :
    Prop where
  queued : s.queued = moved ++ s'.queued
  dispatched : s'.dispatched = s.dispatched ++ moved.map Query.dispatched
  pending : s'.pq.pending
    = s.pq.pending ++ (moved.map Query.dispatched).flatMap w.reply
  phase : s'.phase = s.phase

/-- Nothing is sent. -/
theorem Session.Sends.nil {w : World} {s s' : Session}
    (queued : s'.queued = s.queued) (dispatched : s'.dispatched = s.dispatched)
    (pending : s'.pq.pending = s.pq.pending) (phase : s'.phase = s.phase) :
    Session.Sends w s s' [] := by
  refine ⟨queued.symm, ?_, ?_, phase⟩
  · rw [dispatched]
    exact (List.append_nil _).symm
  · rw [pending]
    exact (List.append_nil _).symm

theorem Session.Sends.trans {w : World} {s s' s'' : Session}
    {moved moved' : List Query} (h : Session.Sends w s s' moved)
    (h' : Session.Sends w s' s'' moved') :
    Session.Sends w s s'' (moved ++ moved') where
  queued := by rw [h.queued, h'.queued, List.append_assoc]
  dispatched := by
    rw [h'.dispatched, h.dispatched, List.map_append, List.append_assoc]
  pending := by
    rw [h'.pending, h.pending, List.map_append, List.flatMap_append,
      List.append_assoc]
  phase := h'.phase.trans h.phase

/-- Whether the client library accepts a query, and the sync point behind
it. -/
def Query.accepted (w : World) (q : Query) : Bool :=
  w.sendOk q.completionHandler
    && !(q.isSyncPoint && !w.syncOk q.completionHandler)

/-- Whether bytes are in the output buffer once queries are sent: it depends on
the last of them. -/
def leftover (w : World) (before : Bool) (moved : List Query) : Bool :=
  moved.getLast?.elim before (fun q => w.leaves q.completionHandler)

/-- **What a batch does**: it sends from the front of the queue, at most `n`
queries, and all of them if it neither fails nor reaches `n`. It fails if one
of the first `n` is refused. -/
structure Session.SendsBatch (w : World) (n : ℕ) (s s' : Session) (ok : Bool)
    (moved : List Query) : Prop extends Session.Sends w s s' moved where
  wev : s'.wev = s.wev
  length : moved.length ≤ n
  accepted : ∀ q ∈ moved, q.accepted w = true
  fails : ok = false → ∃ q ∈ s.queued.take n, q.accepted w = false
  all : ok = true → s'.queued = [] ∨ moved.length = n
  unflushed : s'.pq.unflushed = leftover w s.pq.unflushed moved

/-- Nothing is sent if the first query is refused or there is none. -/
theorem Session.SendsBatch.none {w : World} {n : ℕ} {s : Session} {ok : Bool}
    (hfails : ok = false → ∃ q ∈ s.queued.take n, q.accepted w = false)
    (hall : ok = true → s.queued = [] ∨ 0 = n) :
    Session.SendsBatch w n s s ok [] where
  toSends := .nil rfl rfl rfl rfl
  wev := rfl
  length := Nat.zero_le _
  accepted := fun _ hq => absurd hq List.not_mem_nil
  fails := hfails
  all := hall
  unflushed := rfl

/-- A query that is accepted is sent in front of what is sent next. -/
theorem Session.SendsBatch.cons {w : World} {n : ℕ} {s s' : Session} {ok : Bool}
    {q : Query} {rest moved : List Query} (hq : s.queued = q :: rest)
    (haccepted : q.accepted w = true)
    (hsends : Session.SendsBatch w n
      { s with
        queued := rest
        dispatched := s.dispatched ++ [q.dispatched]
        pq := ⟨s.pq.pending ++ w.reply q.dispatched,
          w.leaves q.completionHandler⟩ } s' ok moved) :
    Session.SendsBatch w (n + 1) s s' ok (q :: moved) where
  toSends := by
    have hone : Session.Sends w s
        { s with
          queued := rest
          dispatched := s.dispatched ++ [q.dispatched]
          pq := ⟨s.pq.pending ++ w.reply q.dispatched,
            w.leaves q.completionHandler⟩ } [q] := by
      refine ⟨hq, rfl, ?_, rfl⟩
      rw [List.map_singleton, List.flatMap_singleton]
    exact hone.trans hsends.toSends
  wev := hsends.wev
  length := Nat.succ_le_succ hsends.length
  accepted := List.forall_mem_cons.mpr ⟨haccepted, hsends.accepted⟩
  fails := by
    intro hok
    obtain ⟨q', hq', hrefused⟩ := hsends.fails hok
    refine ⟨q', ?_, hrefused⟩
    rw [hq]
    exact List.mem_cons_of_mem q hq'
  all := fun hok => (hsends.all hok).imp_right (congrArg (· + 1))
  unflushed := by
    rw [hsends.unflushed]
    cases moved with
    | nil => rfl
    | cons q' moved =>
      unfold leftover
      rw [List.getLast?_cons_cons]
      rfl

/-- **Sending in a loop** does what a batch does. -/
theorem Session.sendBatch_sends {w : World} {n : ℕ} {s s' : Session}
    {ok : Bool} (h : s.sendBatch w n = .ok (s', ok)) :
    ∃ moved, Session.SendsBatch w n s s' ok moved := by
  induction n generalizing s with
  | zero =>
    cases h
    exact ⟨[], .none (fun h => absurd h (by decide)) fun _ => Or.inr rfl⟩
  | succ n ih =>
    rw [sendBatch] at h
    cases hq : s.queued with
    | nil =>
      rw [hq] at h
      cases h
      exact ⟨[], .none (fun h => absurd h (by decide)) fun _ => Or.inl hq⟩
    | cons q rest =>
      have hmem : q ∈ s.queued.take (n + 1) := by
        rw [hq]
        exact List.mem_cons_self
      rw [hq] at h
      dsimp only at h
      split_ifs at h with hfits hsend hsync
      · cases h
        refine ⟨[], .none (fun _ => ⟨q, hmem, ?_⟩) fun h => absurd h (by decide)⟩
        rw [Query.accepted, hsend, Bool.false_and]
      · cases h
        refine ⟨[], .none (fun _ => ⟨q, hmem, ?_⟩) fun h => absurd h (by decide)⟩
        rw [Query.accepted, hsync, Bool.not_true, Bool.and_false]
      · obtain ⟨moved, hsends⟩ := ih h
        have haccepted : q.accepted w = true := by
          rw [Query.accepted, eq_true_of_ne_false hsend,
            eq_false_of_ne_true hsync, Bool.true_and, Bool.not_false]
        exact ⟨q :: moved, .cons hq haccepted hsends⟩

/-! ## What `write` does -/

/-- How often `PQflush` is done at once. -/
def flushesDone (answers : List FlushAnswer) : ℕ :=
  (answers.takeWhile (fun a => decide (a = .done))).length

/-- **Whether `write` fails**: a query it reaches is refused, or `PQflush` fails
before everything is sent. -/
def Session.WriteFails (w : World) (answers : List FlushAnswer) (s : Session) :
    Prop :=
  (∃ q ∈ s.queued.take (20 * flushesDone answers), q.accepted w = false)
  ∨ (answers[flushesDone answers]? = some .failed
    ∧ (flushesDone answers = 0 ∨ 20 * flushesDone answers < s.queued.length))

/-- A failure behind a full batch. -/
theorem Session.WriteFails.done {w : World} {answers : List FlushAnswer}
    {s s₁ : Session} {moved : List Query} (h : s₁.WriteFails w answers)
    (hqueued : s.queued = moved ++ s₁.queued) (hlength : moved.length = 20)
    (hne : s₁.queued ≠ []) : s.WriteFails w (.done :: answers) := by
  have hdone : flushesDone (.done :: answers) = flushesDone answers + 1 := rfl
  have htake : (moved ++ s₁.queued).take (20 * (flushesDone answers + 1))
      = moved ++ s₁.queued.take (20 * flushesDone answers) := by
    rw [← List.take_length_add_append, hlength, Nat.mul_succ, Nat.add_comm]
  unfold Session.WriteFails
  rw [hdone, hqueued, List.length_append, hlength, htake]
  rcases h with ⟨q, hq, hrefused⟩ | ⟨hfailed, hreached⟩
  · exact Or.inl ⟨q, List.mem_append_right moved hq, hrefused⟩
  · refine Or.inr ⟨hfailed, Or.inr ?_⟩
    have hpos : 0 < s₁.queued.length := List.length_pos_of_ne_nil hne
    omega

/-- **What `write` does**: it sends from the front of the queue, and stops the
watcher once everything is sent. -/
structure Session.Writes (w : World) (answers : List FlushAnswer)
    (s s' : Session) (ok : Bool) (moved : List Query) : Prop
    extends Session.Sends w s s' moved where
  fails : ok = false → s.WriteFails w answers
  wev : ok = true → s'.wev = s.wev
    ∨ (s'.queued = [] ∧ s.queued.length ≤ 20 * flushesDone answers
      ∧ (∀ q ∈ s.queued, q.accepted w = true)
      ∧ s'.pq.unflushed = leftover w false s.queued)

theorem Session.write_sends {w : World} {answers : List FlushAnswer}
    {s s' : Session} {ok : Bool} (h : s.write w answers = .ok (s', ok)) :
    ∃ moved, Session.Writes w answers s s' ok moved := by
  induction answers generalizing s with
  | nil =>
    cases h
    exact ⟨[], {
      toSends := .nil rfl rfl rfl rfl
      fails := fun hok => absurd hok (by decide)
      wev := fun _ => Or.inl rfl }⟩
  | cons a answers ih =>
    cases a with
    | wouldBlock =>
      cases h
      exact ⟨[], {
        toSends := .nil rfl rfl rfl rfl
        fails := fun hok => absurd hok (by decide)
        wev := fun _ => Or.inl rfl }⟩
    | failed =>
      cases h
      exact ⟨[], {
        toSends := .nil rfl rfl rfl rfl
        fails := fun _ => Or.inr ⟨rfl, Or.inl rfl⟩
        wev := fun hok => absurd hok (by decide) }⟩
    | done =>
      have hdone : flushesDone (.done :: answers) = flushesDone answers + 1 := rfl
      rw [write] at h
      obtain ⟨⟨s₁, ok₁⟩, hbatch, h⟩ := Except.exists_of_bind_eq_ok h
      obtain ⟨moved, hsends⟩ := Session.sendBatch_sends hbatch
      have hfirst : Session.Sends w s s₁ moved :=
        ⟨hsends.queued, hsends.dispatched, hsends.pending, hsends.phase⟩
      dsimp only at h
      split_ifs at h with hok₁ hqueued
      · cases h
        refine ⟨moved, hfirst, fun _ => Or.inl ?_,
          fun hok => absurd hok (by decide)⟩
        obtain ⟨q, hq, hrefused⟩ := hsends.fails hok₁
        exact ⟨q, List.take_subset_take_left s.queued
          (show 20 ≤ 20 * (flushesDone answers + 1) by omega) hq, hrefused⟩
      · cases h
        have hmoved : s.queued = moved := by
          rw [hfirst.queued, hqueued, List.append_nil]
        refine ⟨moved, ⟨hfirst.queued, hfirst.dispatched, hfirst.pending,
          hfirst.phase⟩, fun hok => absurd hok (by decide), fun _ => Or.inr ?_⟩
        rw [hmoved]
        refine ⟨hqueued, ?_, hsends.accepted, hsends.unflushed⟩
        have hlength := hsends.length
        rw [hdone]
        omega
      · obtain ⟨moved', hrest⟩ := ih h
        have hlength : moved.length = 20 :=
          (hsends.all (eq_true_of_ne_false hok₁)).resolve_left hqueued
        have hqueue : s.queued.length = 20 + s₁.queued.length := by
          rw [hfirst.queued, List.length_append, hlength]
        refine ⟨moved ++ moved', hfirst.trans hrest.toSends, ?_, ?_⟩
        · exact fun hok => (hrest.fails hok).done hfirst.queued hlength hqueued
        · intro hok
          refine (hrest.wev hok).imp (fun hwev => hwev.trans hsends.wev) ?_
          rintro ⟨hall, hlen, haccepted, hunflushed⟩
          refine ⟨hall, ?_, ?_, ?_⟩
          · rw [hdone]
            omega
          · rw [hfirst.queued]
            intro q hq
            exact (List.mem_append.mp hq).elim (hsends.accepted q)
              (haccepted q)
          · rw [hunflushed, hfirst.queued]
            unfold leftover
            rw [List.getLast?_append_of_ne_nil _ hqueued]

/-! ## What polling does -/

/-- A poll leaves the queries and the client library alone. -/
structure Session.Polls (s s' : Session) : Prop where
  queued : s'.queued = s.queued
  dispatched : s'.dispatched = s.dispatched
  pq : s'.pq = s.pq

theorem Session.pollAnswer_polls (s : Session) (answer : PollAnswer) :
    s.Polls (s.pollAnswer answer).1 := by
  cases answer with
  | reading fd =>
    unfold Session.pollAnswer
    dsimp only
    split_ifs <;> exact ⟨rfl, rfl, rfl⟩
  | writing fd =>
    unfold Session.pollAnswer
    dsimp only
    split_ifs <;> exact ⟨rfl, rfl, rfl⟩
  | ok nonblocking pipeline =>
    unfold Session.pollAnswer Session.connectionMade
    dsimp only
    split_ifs <;> exact ⟨rfl, rfl, rfl⟩
  | failed => exact ⟨rfl, rfl, rfl⟩

/-- However often it says `ACTIVE` first. -/
theorem Session.pollConnection_eq (s : Session) (answer : PollAnswer)
    (active : ℕ) : s.pollConnection answer active = s.pollAnswer answer := by
  induction active with
  | zero => rfl
  | succ active ih => exact ih

/-- A new session has no queries. -/
theorem Session.create_polls (first : Poll) :
    Session.init.Polls (Session.create first) := by
  rw [Session.create, Session.pollConnection_eq]
  exact Session.pollAnswer_polls _ _

/-! ## What submitting does -/

/-- **Queries are submitted**: they are queued, with the next numbers for
their handlers; nothing else but the watcher and the prepared statements
changes. -/
structure Worker.Submits (k k' : Worker) (new : List Query) : Prop where
  queued : k'.session.queued = k.session.queued ++ new
  submitted : k'.submitted = k.submitted ++ new.map Query.streamSerial
  handlers : new.map Query.completionHandler
    = List.range' k.submitted.length new.length
  syncPoints : ∀ q ∈ new, q.isSyncPoint = true
  dispatched : k'.session.dispatched = k.session.dispatched
  pq : k'.session.pq = k.session.pq
  phase : k'.session.phase = k.session.phase
  wev : k'.session.wev = (k.session.wev || !new.isEmpty)
  aliveStreams : k'.aliveStreams = k.aliveStreams
  nextStreamSerial : k'.nextStreamSerial = k.nextStreamSerial
  alive : ∀ q ∈ new, q.streamSerial ∈ k.aliveStreams
  calls : k'.calls = k.calls

namespace Worker.Submits

theorem refl (k : Worker) : k.Submits k [] where
  queued := (List.append_nil _).symm
  submitted := (List.append_nil _).symm
  handlers := rfl
  syncPoints := fun _ h => absurd h List.not_mem_nil
  dispatched := rfl
  pq := rfl
  phase := rfl
  wev := (Bool.or_false _).symm
  aliveStreams := rfl
  nextStreamSerial := rfl
  alive := fun _ h => absurd h List.not_mem_nil
  calls := rfl

theorem trans {k k' k'' : Worker} {new new' : List Query}
    (h : k.Submits k' new) (h' : k'.Submits k'' new') :
    k.Submits k'' (new ++ new') where
  queued := by rw [h'.queued, h.queued, List.append_assoc]
  submitted := by
    rw [h'.submitted, h.submitted, List.map_append, List.append_assoc]
  handlers := by
    rw [List.map_append, h.handlers, h'.handlers, h.submitted,
      List.length_append, List.length_map, List.length_append,
      ← List.range'_append_1]
  syncPoints := by
    intro q hq
    exact (List.mem_append.mp hq).elim (h.syncPoints q) (h'.syncPoints q)
  dispatched := h'.dispatched.trans h.dispatched
  pq := h'.pq.trans h.pq
  phase := h'.phase.trans h.phase
  wev := by
    rw [h'.wev, h.wev]
    cases new <;> cases new' <;> simp
  aliveStreams := h'.aliveStreams.trans h.aliveStreams
  nextStreamSerial := h'.nextStreamSerial.trans h.nextStreamSerial
  alive := by
    intro q hq
    refine (List.mem_append.mp hq).elim (h.alive q) fun hnew => ?_
    rw [← h.aliveStreams]
    exact h'.alive q hnew
  calls := h'.calls.trans h.calls

/-- The replies still to be read and the front of the queue of those sent play
no part in it. -/
theorem popFront {k k' : Worker} {new : List Query} (h : k.Submits k' new)
    (pending : List Item) :
    ((k.setPending pending).popFront).Submits
      ((k'.setPending pending).popFront) new where
  queued := h.queued
  submitted := h.submitted
  handlers := h.handlers
  syncPoints := h.syncPoints
  dispatched := congrArg List.tail h.dispatched
  pq := congrArg (fun pq : LibPq => LibPq.mk pending pq.unflushed) h.pq
  phase := h.phase
  wev := h.wev
  aliveStreams := h.aliveStreams
  nextStreamSerial := h.nextStreamSerial
  alive := h.alive
  calls := h.calls

end Worker.Submits

/-- **What the five `send_*` functions do alike.** -/
theorem Session.send_eq (s : Session) (stream cb : ℕ) (call : SendCall) :
    ∃ arg prepared, s.send stream cb call
      = { s with
          queued := s.queued ++ [⟨stream, true, arg, cb⟩]
          wev := true
          preparedQueries := prepared } := by
  have hadd : ∀ statement, ∃ prepared, s.addPreparedQuery statement
      = { s with preparedQueries := prepared } := by
    intro statement
    unfold Session.addPreparedQuery
    split_ifs
    · exact ⟨s.preparedQueries, rfl⟩
    · exact ⟨_, rfl⟩
  cases call with
  | query command => exact ⟨_, _, rfl⟩
  | queryParams command params => exact ⟨_, _, rfl⟩
  | queryPrepared statement params => exact ⟨_, _, rfl⟩
  | prepared statement command =>
    obtain ⟨prepared, h⟩ := hadd statement
    refine ⟨.prepare statement (.command command), prepared, ?_⟩
    rw [Session.send, Session.sendPrepared, h]
    rfl
  | preparedFile statement fd =>
    obtain ⟨prepared, h⟩ := hadd statement
    refine ⟨.prepare statement (.file fd), prepared, ?_⟩
    rw [Session.send, Session.sendPreparedFile, h]
    rfl

/-- What one submission does. -/
theorem Worker.submit_submits (k : Worker) (stream : ℕ) (call : SendCall) :
    ∃ new, k.Submits (k.submit stream call) new
      ∧ ∀ q ∈ new, q.streamSerial = stream := by
  unfold Worker.submit
  split_ifs with halive
  · obtain ⟨arg, prepared, h⟩ := k.session.send_eq stream k.submitted.length call
    refine ⟨[⟨stream, true, arg, k.submitted.length⟩], ?_,
      fun q hq => congrArg Query.streamSerial (List.mem_singleton.mp hq)⟩
    rw [h]
    exact {
      queued := rfl
      submitted := rfl
      handlers := rfl
      syncPoints := by simp
      dispatched := rfl
      pq := rfl
      phase := rfl
      wev := (Bool.or_true _).symm
      aliveStreams := rfl
      nextStreamSerial := rfl
      alive := fun q hq => List.mem_singleton.mp hq ▸ halive
      calls := rfl }
  · exact ⟨[], .refl k, fun q hq => absurd hq List.not_mem_nil⟩

/-- What several submissions do. -/
theorem Worker.submitAll_submits (l : List (ℕ × SendCall)) (k : Worker) :
    ∃ new, k.Submits (k.submitAll l) new
      ∧ ∀ q ∈ new, ∃ c ∈ l, c.1 = q.streamSerial := by
  induction l generalizing k with
  | nil => exact ⟨[], .refl k, fun q hq => absurd hq List.not_mem_nil⟩
  | cons c l ih =>
    obtain ⟨new, h, hstream⟩ := k.submit_submits c.1 c.2
    obtain ⟨new', h', hstreams⟩ := ih (k.submit c.1 c.2)
    refine ⟨new ++ new', h.trans h', fun q hq => ?_⟩
    rcases List.mem_append.mp hq with hq | hq
    · exact ⟨c, List.mem_cons_self, (hstream q hq).symm⟩
    · obtain ⟨c', hc', heq⟩ := hstreams q hq
      exact ⟨c', List.mem_cons_of_mem c hc', heq⟩

/-! ## What reading does -/

/-- Whether the handler of a query is called with its result. -/
def Worker.Hears (w : World) (k : Worker) (d : DispatchedQuery) : Prop :=
  Worker.treatment (w.status d.completionHandler) = .deliver
    ∧ d.streamSerial ∈ k.aliveStreams

instance (w : World) (k : Worker) (d : DispatchedQuery) :
    Decidable (k.Hears w d) :=
  inferInstanceAs (Decidable (_ ∧ _))

/-- The worker once the query at the front has been answered, but for what its
handler submits. -/
def Worker.answered (w : World) (k : Worker) (d : DispatchedQuery) : Worker :=
  { k with
    session := { k.session with
      dispatched := k.session.dispatched.tail
      pq := { k.session.pq with pending := k.session.pq.pending.drop 2 } }
    calls := k.calls ++ if k.Hears w d then
      [⟨d.completionHandler,
        ⟨d.completionHandler, w.status d.completionHandler⟩⟩] else [] }

/-- **A round that meets a marker** takes it, and nothing else. -/
theorem Worker.readOne_marker {w : World} {k : Worker} {rest : List Item}
    (h : k.session.pq.pending = .pipelineSync :: rest) :
    k.readOne w = .ok (k.setPending rest, false) := by
  unfold Worker.readOne
  rw [h]
  rfl

/-- **A round of an idle connection** does nothing. -/
theorem Worker.readOne_idle {w : World} {k : Worker}
    (hpending : k.session.pq.pending = [])
    (hdispatched : k.session.dispatched = []) :
    k.readOne w = .ok (k, false) := by
  unfold Worker.readOne
  rw [hpending, hdispatched]
  show Except.ok ((k.setPending []).popFront, false) = _
  unfold Worker.setPending Worker.popFront
  dsimp only
  rw [hdispatched, List.tail_nil, ← hpending, ← hdispatched]

/-- **A round that meets the result of the query at the front** answers it: the
marker behind it stays. The round fails if the result does. -/
theorem Worker.readOne_answer {w : World} {k : Worker} {d : DispatchedQuery}
    {ds : List DispatchedQuery} {rest : List Item}
    (hdispatched : k.session.dispatched = d :: ds)
    (hpending : k.session.pq.pending = .result ⟨d.completionHandler,
      w.status d.completionHandler⟩ :: .null :: rest) :
    ∃ k' new, k.readOne w = .ok (k', decide
        (Worker.treatment (w.status d.completionHandler) = .fail))
      ∧ (k.answered w d).Submits k' new
      ∧ ∀ q ∈ new, k.Hears w d
        ∧ ∃ c ∈ w.submits d.completionHandler, c.1 = q.streamSerial := by
  unfold Worker.readOne
  rw [hdispatched, hpending]
  show ∃ k' new, (Worker.getResults w (some d) (decide (_ ∈ _)) false
    (.result _ :: .null :: rest) k >>= _) = _ ∧ _
  rw [Worker.getResults]
  have hsilent : ¬ k.Hears w d → k.answered w d
      = ((k.setPending (.null :: rest)).setPending rest).popFront := by
    intro hnot
    unfold Worker.answered
    rw [if_neg hnot, List.append_nil, hpending]
    rfl
  cases htreat : Worker.treatment (w.status d.completionHandler) with
  | deliver =>
    by_cases halive : d.streamSerial ∈ k.aliveStreams
    · have hhears : k.Hears w d := ⟨htreat, halive⟩
      have hanswered : k.answered w d
          = (((k.setPending (.null :: rest)).call d.completionHandler
              ⟨d.completionHandler, w.status d.completionHandler⟩).setPending
                rest).popFront := by
        unfold Worker.answered
        rw [if_pos hhears, hpending]
        rfl
      obtain ⟨new, hsubmits, hstreams⟩ := Worker.submitAll_submits
        (w.submits d.completionHandler)
        ((k.setPending (.null :: rest)).call d.completionHandler
          ⟨d.completionHandler, w.status d.completionHandler⟩)
      refine ⟨_, new, ?_, hanswered ▸ hsubmits.popFront rest,
        fun q hq => ⟨hhears, hstreams q hq⟩⟩
      rw [decide_eq_true halive]
      rfl
    · rw [hsilent fun h => halive h.2]
      refine ⟨_, [], ?_, .refl _, fun q hq => absurd hq List.not_mem_nil⟩
      rw [decide_eq_false halive]
      rfl
  | drop =>
    rw [hsilent fun h => absurd (htreat.symm.trans h.1) (by decide)]
    exact ⟨_, [], rfl, .refl _, fun q hq => absurd hq List.not_mem_nil⟩
  | fail =>
    rw [hsilent fun h => absurd (htreat.symm.trans h.1) (by decide)]
    exact ⟨_, [], rfl, .refl _, fun q hq => absurd hq List.not_mem_nil⟩

/-! ## What an event of a watcher does -/

/-- The socket can be read. -/
theorem Worker.step_readable {w : World} {k k' : Worker} {consumed : Bool}
    {ready : ℕ} {poll restart : Poll}
    (h : k.step w (.readable consumed ready poll restart) = .ok k') :
    k' = k
    ∨ (k.session.rev = true ∧ k.session.readFn = .pollConnection
      ∧ k' = Worker.orRestart restart
        (k.withSession (k.session.pollAnswer poll.answer)))
    ∨ (k.session.rev = true ∧ k.session.readFn = .io
      ∧ ∃ r, k.read w consumed ready = .ok r
        ∧ k' = Worker.orRestart restart r) := by
  rw [Worker.step] at h
  split_ifs at h with hrev
  · cases h
    exact Or.inl rfl
  · have hactive : k.session.rev = true := eq_true_of_ne_false hrev
    cases hfn : k.session.readFn with
    | pollConnection =>
      rw [hfn] at h
      cases h
      rw [Session.pollConnection_eq]
      exact Or.inr (Or.inl ⟨hactive, rfl, rfl⟩)
    | io =>
      rw [hfn] at h
      obtain ⟨r, hread, h⟩ := Except.exists_of_bind_eq_ok h
      cases h
      exact Or.inr (Or.inr ⟨hactive, rfl, r, hread, rfl⟩)

/-- The socket can be written. -/
theorem Worker.step_writable {w : World} {k k' : Worker}
    {flushes : List FlushAnswer} {poll restart : Poll}
    (h : k.step w (.writable flushes poll restart) = .ok k') :
    k' = k
    ∨ (k.session.wev = true ∧ k.session.writeFn = .pollConnection
      ∧ k' = Worker.orRestart restart
        (k.withSession (k.session.pollAnswer poll.answer)))
    ∨ (k.session.wev = true ∧ k.session.writeFn = .io
      ∧ ∃ r, k.session.write w flushes = .ok r
        ∧ k' = Worker.orRestart restart (k.withSession r)) := by
  rw [Worker.step] at h
  split_ifs at h with hwev
  · cases h
    exact Or.inl rfl
  · have hactive : k.session.wev = true := eq_true_of_ne_false hwev
    cases hfn : k.session.writeFn with
    | pollConnection =>
      rw [hfn] at h
      cases h
      rw [Session.pollConnection_eq]
      exact Or.inr (Or.inl ⟨hactive, rfl, rfl⟩)
    | io =>
      rw [hfn] at h
      obtain ⟨r, hwrite, h⟩ := Except.exists_of_bind_eq_ok h
      cases h
      exact Or.inr (Or.inr ⟨hactive, rfl, r, hwrite, rfl⟩)

/-! ## The invariant -/

namespace Worker

/-- The handlers called, those of the queries sent and those of the queries
queued. -/
def handlers (k : Worker) : List ℕ :=
  k.calls.map HandlerCall.handler
    ++ k.session.dispatched.map DispatchedQuery.completionHandler
    ++ k.session.queued.map Query.completionHandler

/-- Submitting adds the next numbers. -/
theorem Submits.handlers_eq {k k' : Worker} {new : List Query}
    (hs : k.Submits k' new) : k'.handlers
      = k.handlers ++ List.range' k.submitted.length new.length := by
  unfold Worker.handlers
  rw [hs.calls, hs.dispatched, hs.queued, List.map_append, hs.handlers]
  exact (List.append_assoc _ _ _).symm

/-- Sending changes none of the handlers, nor their order. -/
theorem handlers_sends {w : World} {k : Worker} {s' : Session}
    {moved : List Query} (hs : Session.Sends w k.session s' moved) :
    Worker.handlers { k with session := s' } = k.handlers := by
  unfold Worker.handlers
  rw [hs.dispatched, hs.queued, List.map_append, List.map_append,
    List.map_map, List.append_assoc, List.append_assoc, List.append_assoc]
  rfl

/-- With a new session the handlers that were called remain. -/
theorem handlers_restart (k : Worker) (first : Poll) :
    (k.restartDbSession first).handlers = k.calls.map HandlerCall.handler := by
  obtain ⟨hqueued, hdispatched, -⟩ := Session.create_polls first
  show k.calls.map HandlerCall.handler
    ++ (Session.create first).dispatched.map _
    ++ (Session.create first).queued.map _ = _
  rw [hdispatched, hqueued]
  exact (List.append_nil _).trans (List.append_nil _)

/-- When the query at the front has been answered, its handler has been called
or is gone. -/
theorem handlers_answered {w : World} {k : Worker} {d : DispatchedQuery}
    {ds : List DispatchedQuery} (hdispatched : k.session.dispatched = d :: ds) :
    k.handlers = k.calls.map HandlerCall.handler ++ d.completionHandler
        :: (ds.map DispatchedQuery.completionHandler
          ++ k.session.queued.map Query.completionHandler)
    ∧ (k.answered w d).handlers = k.calls.map HandlerCall.handler
      ++ ((if k.Hears w d then [d.completionHandler] else [])
        ++ (ds.map DispatchedQuery.completionHandler
          ++ k.session.queued.map Query.completionHandler)) := by
  constructor
  · unfold Worker.handlers
    rw [hdispatched, List.append_assoc]
    rfl
  · unfold Worker.handlers Worker.answered
    dsimp only
    rw [hdispatched, List.map_append, List.append_assoc, List.append_assoc]
    split_ifs <;> rfl

/-- **The session and the client library are in step.** -/
structure Aligned (w : World) (k : Worker) : Prop where
  queuedSync : ∀ q ∈ k.session.queued, q.isSyncPoint = true
  dispatchedSync : ∀ d ∈ k.session.dispatched, d.isSyncPoint = true
  /-- The replies still to be read are those of the queries sent, but for a
  marker left in front. -/
  pending : k.session.pq.pending = k.session.dispatched.flatMap w.reply
    ∨ k.session.pq.pending
      = .pipelineSync :: k.session.dispatched.flatMap w.reply
  /-- Every handler called got the result of its own query. -/
  own : ∀ c ∈ k.calls, c.result.query = c.handler
  /-- No handler comes twice, and they come in the order of submission. -/
  ordered : k.handlers.Sublist (List.range k.submitted.length)

namespace Aligned

variable {w : World} {k k' : Worker}

/-- The invariant is about the queries, the replies and the calls only. -/
theorem congr (h : k.Aligned w) (hqueued : k'.session.queued = k.session.queued)
    (hdispatched : k'.session.dispatched = k.session.dispatched)
    (hpending : k'.session.pq.pending = k.session.pq.pending)
    (hsubmitted : k'.submitted = k.submitted) (hcalls : k'.calls = k.calls) :
    k'.Aligned w where
  queuedSync := hqueued ▸ h.queuedSync
  dispatchedSync := hdispatched ▸ h.dispatchedSync
  pending := by
    rw [hpending, hdispatched]
    exact h.pending
  own := hcalls ▸ h.own
  ordered := by
    unfold Worker.handlers
    rw [hcalls, hdispatched, hqueued, hsubmitted]
    exact h.ordered

theorem submits {new : List Query} (h : k.Aligned w) (hs : k.Submits k' new) :
    k'.Aligned w where
  queuedSync := by
    rw [hs.queued]
    intro q hq
    exact (List.mem_append.mp hq).elim (h.queuedSync q) (hs.syncPoints q)
  dispatchedSync := hs.dispatched ▸ h.dispatchedSync
  pending := by
    rw [hs.pq, hs.dispatched]
    exact h.pending
  own := hs.calls ▸ h.own
  ordered := by
    rw [hs.handlers_eq, hs.submitted, List.length_append, List.length_map,
      List.range_eq_range', ← List.range'_append_1, Nat.zero_add,
      ← List.range_eq_range']
    exact h.ordered.append (List.Sublist.refl _)

theorem sends {s' : Session} {moved : List Query} (h : k.Aligned w)
    (hs : Session.Sends w k.session s' moved) :
    Aligned w { k with session := s' } where
  queuedSync := fun q hq =>
    h.queuedSync q (hs.queued ▸ List.mem_append_right moved hq)
  dispatchedSync := by
    intro d hd
    rcases List.mem_append.mp (hs.dispatched ▸ hd) with hd | hd
    · exact h.dispatchedSync d hd
    · obtain ⟨q, hq, rfl⟩ := List.mem_map.mp hd
      exact h.queuedSync q (hs.queued ▸ List.mem_append_left _ hq)
  pending := by
    show s'.pq.pending = _ ∨ s'.pq.pending = _
    rw [hs.pending, hs.dispatched, List.flatMap_append]
    exact h.pending.imp (fun hp => by rw [hp]) (fun hp => by rw [hp]; rfl)
  own := h.own
  ordered := by
    rw [handlers_sends hs]
    exact h.ordered

/-- A new session has no queries, and the calls made remain. -/
theorem restart (h : k.Aligned w) (first : Poll) :
    (k.restartDbSession first).Aligned w := by
  obtain ⟨hqueued, hdispatched, hpq⟩ := Session.create_polls first
  refine ⟨?_, ?_, Or.inl ?_, h.own, ?_⟩
  · show ∀ q ∈ (Session.create first).queued, _
    rw [hqueued]
    exact fun _ hq => absurd hq List.not_mem_nil
  · show ∀ d ∈ (Session.create first).dispatched, _
    rw [hdispatched]
    exact fun _ hd => absurd hd List.not_mem_nil
  · show (Session.create first).pq.pending
      = (Session.create first).dispatched.flatMap w.reply
    rw [hpq, hdispatched]
    rfl
  · rw [handlers_restart]
    have hcalls : (k.calls.map HandlerCall.handler).Sublist k.handlers :=
      (List.sublist_append_left _ _).trans (List.sublist_append_left _ _)
    exact hcalls.trans h.ordered

/-- Another session in place of one that has failed. -/
theorem orRestart {r : Worker × Bool} (h : r.1.Aligned w) (first : Poll) :
    (Worker.orRestart first r).Aligned w := by
  unfold Worker.orRestart
  split_ifs
  · exact h
  · exact h.restart first

/-- The replies to queries begin with a result. -/
theorem flatMap_reply_ne_marker (ds : List DispatchedQuery)
    (rest : List Item) : ds.flatMap w.reply ≠ .pipelineSync :: rest := by
  cases ds with
  | nil => exact (List.cons_ne_nil _ _).symm
  | cons d ds =>
    intro h
    rw [List.flatMap_cons] at h
    exact Item.noConfusion (List.cons.inj h).1

/-- Behind a marker come the replies to the queries sent. -/
theorem behind_marker {rest : List Item} (h : k.Aligned w)
    (hpending : k.session.pq.pending = .pipelineSync :: rest) :
    rest = k.session.dispatched.flatMap w.reply := by
  rcases h.pending with hp | hp
  · exact absurd (hp.symm.trans hpending) (flatMap_reply_ne_marker _ _)
  · rw [hpending] at hp
    exact List.tail_eq_of_cons_eq hp

/-- A marker has been taken. -/
theorem marker {rest : List Item} (h : k.Aligned w)
    (hpending : k.session.pq.pending = .pipelineSync :: rest) :
    (k.setPending rest).Aligned w where
  queuedSync := h.queuedSync
  dispatchedSync := h.dispatchedSync
  pending := Or.inl (h.behind_marker hpending)
  own := h.own
  ordered := h.ordered

/-- Behind the result of the query at the front comes its marker. -/
theorem behind_answer {d : DispatchedQuery} {ds : List DispatchedQuery}
    (h : k.Aligned w) (hdispatched : k.session.dispatched = d :: ds)
    (hpending : k.session.pq.pending = (d :: ds).flatMap w.reply) :
    (k.answered w d).session.pq.pending
      = .pipelineSync :: ds.flatMap w.reply := by
  have hsync : d.isSyncPoint = true :=
    h.dispatchedSync d (hdispatched ▸ List.mem_cons_self)
  show k.session.pq.pending.drop 2 = _
  rw [hpending, List.flatMap_cons, World.reply, if_pos hsync]
  rfl

/-- The query at the front has been answered. -/
theorem answered {d : DispatchedQuery} {ds : List DispatchedQuery}
    (h : k.Aligned w) (hdispatched : k.session.dispatched = d :: ds)
    (hpending : k.session.pq.pending = (d :: ds).flatMap w.reply) :
    (k.answered w d).Aligned w where
  queuedSync := h.queuedSync
  dispatchedSync := fun d' hd' => h.dispatchedSync d' (List.mem_of_mem_tail hd')
  pending := by
    refine Or.inr ?_
    show _ = Item.pipelineSync :: k.session.dispatched.tail.flatMap w.reply
    rw [h.behind_answer hdispatched hpending, hdispatched]
    rfl
  own := by
    intro c hc
    rcases List.mem_append.mp hc with hc | hc
    · exact h.own c hc
    · split_ifs at hc
      · rw [List.mem_singleton.mp hc]
      · exact absurd hc List.not_mem_nil
  ordered := by
    refine List.Sublist.trans ?_ h.ordered
    obtain ⟨hbefore, hafter⟩ := handlers_answered (w := w) hdispatched
    rw [hbefore, hafter]
    refine List.Sublist.append (List.Sublist.refl _) ?_
    split_ifs
    · exact List.Sublist.refl _
    · exact List.sublist_cons_self _ _

/-- **A round of `read`** meets a marker, or an idle connection, or the result
of the query at the front. -/
theorem readOne_cases (h : k.Aligned w) :
    (∃ rest, k.session.pq.pending = .pipelineSync :: rest
      ∧ k.readOne w = .ok (k.setPending rest, false)
      ∧ (k.setPending rest).Aligned w)
    ∨ (k.session.dispatched = [] ∧ k.readOne w = .ok (k, false))
    ∨ ∃ d ds k' new, k.session.dispatched = d :: ds
      ∧ k.session.pq.pending = (d :: ds).flatMap w.reply
      ∧ k.readOne w = .ok (k', decide
        (treatment (w.status d.completionHandler) = .fail))
      ∧ (k.answered w d).Submits k' new
      ∧ (∀ q ∈ new, k.Hears w d
        ∧ ∃ c ∈ w.submits d.completionHandler, c.1 = q.streamSerial)
      ∧ k'.Aligned w := by
  rcases h.pending with hp | hp
  · cases hd : k.session.dispatched with
    | nil =>
      rw [hd] at hp
      exact Or.inr (Or.inl ⟨rfl, readOne_idle hp hd⟩)
    | cons d ds =>
      rw [hd] at hp
      have hfirst := hp
      rw [List.flatMap_cons, World.reply, List.append_assoc] at hfirst
      obtain ⟨k', new, hread, hsubmits, hstreams⟩ := readOne_answer hd hfirst
      exact Or.inr (Or.inr ⟨d, ds, k', new, rfl, hp, hread, hsubmits, hstreams,
        (h.answered hd hp).submits hsubmits⟩)
  · exact Or.inl ⟨_, hp, readOne_marker hp, h.marker hp⟩

/-- **The rule for `read`.** What holds before a round (`I`, with the number
of rounds left) and is kept by one leads to what holds at the end (`Q`).
Reading never faults, and keeps the two in step. -/
theorem readAll_rule {I : ℕ → Worker → Prop} {Q : Worker × Bool → Prop}
    (stop : ∀ n k, I n k → n = 0 ∨ k.session.dispatched = [] → Q (k, true))
    (marker : ∀ n k rest, k.Aligned w → I (n + 1) k →
      k.session.pq.pending = .pipelineSync :: rest → I n (k.setPending rest))
    (answer : ∀ n k d ds k' new, k.Aligned w → I (n + 1) k →
      k.session.dispatched = d :: ds →
      k.session.pq.pending = (d :: ds).flatMap w.reply →
      (k.answered w d).Submits k' new →
      (∀ q ∈ new, k.Hears w d
        ∧ ∃ c ∈ w.submits d.completionHandler, c.1 = q.streamSerial) →
      if treatment (w.status d.completionHandler) = .fail then Q (k', false)
      else I n k')
    (ready : ℕ) (h : k.Aligned w) (hI : I ready k) :
    ∃ r, k.readAll w ready = .ok r ∧ r.1.Aligned w ∧ Q r := by
  induction ready generalizing k with
  | zero => exact ⟨(k, true), rfl, h, stop 0 k hI (Or.inl rfl)⟩
  | succ ready ih =>
    -- after a round that does not fail
    have hnext : ∀ {k' : Worker}, k'.Aligned w → I ready k' → ∃ r,
        (if k'.session.dispatched = [] then Except.ok (k', true)
          else k'.readAll w ready) = .ok r ∧ r.1.Aligned w ∧ Q r := by
      intro k' hk' hI'
      split_ifs with hd
      · exact ⟨(k', true), rfl, hk', stop ready k' hI' (Or.inr hd)⟩
      · exact ih hk' hI'
    rw [Worker.readAll]
    rcases h.readOne_cases with ⟨rest, hp, hread, hk'⟩ | ⟨hd, hread⟩
      | ⟨d, ds, k', new, hd, hp, hread, hsubmits, hstreams, hk'⟩
    · rw [hread]
      exact hnext hk' (marker ready k rest h hI hp)
    · refine ⟨(k, true), ?_, h, stop _ k hI (Or.inr hd)⟩
      rw [hread, Except.ok_bind]
      dsimp only
      rw [if_neg Bool.false_ne_true, if_pos hd]
    · have hI' := answer ready k d ds k' new h hI hd hp hsubmits hstreams
      rw [hread, Except.ok_bind]
      dsimp only
      by_cases hfail : treatment (w.status d.completionHandler) = .fail
      · rw [if_pos hfail] at hI'
        rw [if_pos (decide_eq_true hfail)]
        exact ⟨(k', false), rfl, hk', hI'⟩
      · rw [if_neg hfail] at hI'
        rw [if_neg fun hd => hfail (of_decide_eq_true hd)]
        exact hnext hk' hI'

/-- What `read` keeps, its input being consumed or not. -/
theorem read {consumed : Bool} {ready : ℕ} {r : Worker × Bool}
    (h : k.Aligned w) (hread : k.read w consumed ready = .ok r) :
    r.1.Aligned w := by
  unfold Worker.read at hread
  split_ifs at hread
  · cases hread
    exact h
  · obtain ⟨r', hr', hk', -⟩ := h.readAll_rule (I := fun _ _ => True)
      (Q := fun _ => True) (fun _ _ _ _ => trivial)
      (fun _ _ _ _ _ _ => trivial)
      (fun _ _ _ _ _ _ _ _ _ _ _ _ => by split_ifs)
      ready trivial
    rw [hr'] at hread
    cases hread
    exact hk'

/-- A poll touches neither the queries nor the replies. -/
theorem poll (h : k.Aligned w) (answer : PollAnswer) :
    (k.withSession (k.session.pollAnswer answer)).1.Aligned w :=
  let hpolls := k.session.pollAnswer_polls answer
  h.congr hpolls.queued hpolls.dispatched (congrArg LibPq.pending hpolls.pq)
    rfl rfl

/-- **One event keeps the two in step.** -/
theorem step {e : Event} (h : k.Aligned w) (hstep : k.step w e = .ok k') :
    k'.Aligned w := by
  cases e with
  | submit stream call =>
    cases hstep
    obtain ⟨new, hsubmits, -⟩ := k.submit_submits stream call
    exact h.submits hsubmits
  | openStream =>
    cases hstep
    exact h.congr rfl rfl rfl rfl rfl
  | closeStream stream =>
    cases hstep
    exact h.congr rfl rfl rfl rfl rfl
  | readable consumed ready poll restart =>
    rcases step_readable hstep with rfl | ⟨-, -, rfl⟩ | ⟨-, -, r, hread, rfl⟩
    · exact h
    · exact (h.poll poll.answer).orRestart restart
    · exact (h.read hread).orRestart restart
  | writable flushes poll restart =>
    rcases step_writable hstep with rfl | ⟨-, -, rfl⟩ | ⟨-, -, r, hwrite, rfl⟩
    · exact h
    · exact (h.poll poll.answer).orRestart restart
    · obtain ⟨moved, hwrites⟩ := Session.write_sends hwrite
      exact orRestart (r := k.withSession r) (h.sends hwrites.toSends) restart

/-- A worker that has done nothing yet. -/
theorem start (first : Poll) : (Worker.start first).Aligned w := by
  have h : Worker.Aligned w ⟨Session.init, ∅, 0, [], []⟩ :=
    ⟨fun _ hq => absurd hq List.not_mem_nil,
      fun _ hd => absurd hd List.not_mem_nil, Or.inl rfl,
      fun _ hc => absurd hc List.not_mem_nil, List.Sublist.refl _⟩
  exact h.restart first

/-- After every run the two are in step. -/
theorem exec {first : Poll} {events : List Event}
    (h : Run.exec (Worker.step w) (Worker.start first) events = .ok k) :
    k.Aligned w :=
  Run.invariant_of_step (fun _ _ _ => step) (start first) h

end Aligned

/-- **The entries of the queues carry the stream** that submitted them. -/
structure Owned (k : Worker) : Prop where
  queued : ∀ q ∈ k.session.queued,
    k.submitted[q.completionHandler]? = some q.streamSerial
  dispatched : ∀ d ∈ k.session.dispatched,
    k.submitted[d.completionHandler]? = some d.streamSerial

namespace Owned

variable {w : World} {k k' : Worker}

/-- A query keeps its number when others are submitted. -/
theorem getElem?_submits {new : List Query} (hs : k.Submits k' new)
    {handler stream : ℕ} (h : k.submitted[handler]? = some stream) :
    k'.submitted[handler]? = some stream := by
  rw [hs.submitted, List.getElem?_append_left (List.getElem?_eq_some_iff.mp h).1]
  exact h

theorem submits {new : List Query} (h : k.Owned) (hs : k.Submits k' new) :
    k'.Owned where
  queued := by
    intro q hq
    rw [hs.queued] at hq
    rcases List.mem_append.mp hq with hq | hq
    · exact getElem?_submits hs (h.queued q hq)
    · obtain ⟨i, hi, rfl⟩ := List.getElem_of_mem hq
      have hcb : new[i].completionHandler = k.submitted.length + i := by
        have hget := congrArg (·[i]?) hs.handlers
        rw [List.getElem?_map, List.getElem?_eq_getElem hi,
          List.getElem?_range' hi, Nat.one_mul] at hget
        exact Option.some.inj hget
      rw [hs.submitted, hcb,
        List.getElem?_append_right (Nat.le_add_right _ _),
        Nat.add_sub_cancel_left, List.getElem?_map,
        List.getElem?_eq_getElem hi]
      rfl
  dispatched := by
    rw [hs.dispatched]
    exact fun d hd => getElem?_submits hs (h.dispatched d hd)

theorem sends {s' : Session} {moved : List Query} (h : k.Owned)
    (hs : Session.Sends w k.session s' moved) :
    Owned { k with session := s' } where
  queued := fun q hq => h.queued q (hs.queued ▸ List.mem_append_right moved hq)
  dispatched := by
    intro d hd
    rcases List.mem_append.mp (hs.dispatched ▸ hd) with hd | hd
    · exact h.dispatched d hd
    · obtain ⟨q, hq, rfl⟩ := List.mem_map.mp hd
      exact h.queued q (hs.queued ▸ List.mem_append_left _ hq)

/-- The query at the front has been answered. -/
theorem answered (h : k.Owned) (d : DispatchedQuery) :
    (k.answered w d).Owned where
  queued := h.queued
  dispatched := fun d' hd' => h.dispatched d' (List.mem_of_mem_tail hd')

/-- A new session has no queries. -/
theorem restart (k : Worker) (first : Poll) :
    (k.restartDbSession first).Owned := by
  obtain ⟨hqueued, hdispatched, -⟩ := Session.create_polls first
  refine ⟨?_, ?_⟩
  · show ∀ q ∈ (Session.create first).queued, _
    rw [hqueued]
    exact fun _ hq => absurd hq List.not_mem_nil
  · show ∀ d ∈ (Session.create first).dispatched, _
    rw [hdispatched]
    exact fun _ hd => absurd hd List.not_mem_nil

end Owned

/-- **Results reach their own handlers, in order.** Whatever the client library
answers, however the events come and wherever the replies are split, every
handler that has been called got the result of its own query, and the handlers
were called in the order in which their queries were submitted. -/
theorem own_results_in_order {w : World} {first : Poll} {events : List Event}
    {k : Worker}
    (h : Run.exec (Worker.step w) (Worker.start first) events = .ok k) :
    (∀ c ∈ k.calls, c.result.query = c.handler)
    ∧ (k.calls.map HandlerCall.handler).Pairwise (· < ·) := by
  have haligned := Aligned.exec h
  have hcalls : (k.calls.map HandlerCall.handler).Sublist k.handlers :=
    (List.sublist_append_left _ _).trans (List.sublist_append_left _ _)
  exact ⟨haligned.own,
    List.pairwise_lt_range.sublist (hcalls.trans haligned.ordered)⟩

end Worker

/-! ### A run -/

/-- A world in which the first handler submits another query. -/
def World.chatty : World where
  sendOk := fun _ => true
  syncOk := fun _ => true
  leaves := fun _ => false
  status := fun _ => .tuplesOk
  submits := fun h => if h = 0 then [(0, .query [])] else []

/-- Two queries; the marker behind the second is left in front of the third,
which the first handler submits. -/
def chattyRun : List Event :=
  [.readable true 0 ⟨0, .ok true true⟩ ⟨0, .failed⟩, .openStream,
    .submit 0 (.query []), .submit 0 (.query []),
    .writable [.done] ⟨0, .failed⟩ ⟨0, .failed⟩,
    .readable true 1 ⟨0, .failed⟩ ⟨0, .failed⟩,
    .readable true 5 ⟨0, .failed⟩ ⟨0, .failed⟩,
    .writable [.done] ⟨0, .failed⟩ ⟨0, .failed⟩,
    .readable true 5 ⟨0, .failed⟩ ⟨0, .failed⟩]

theorem chattyRun_own_results_in_order :
    ∃ k, Run.exec (Worker.step .chatty) (Worker.start ⟨0, .reading 3⟩) chattyRun
        = .ok k
      ∧ k.calls.map HandlerCall.handler = [0, 1, 2]
      ∧ (∀ c ∈ k.calls, c.result.query = c.handler)
      ∧ (k.calls.map HandlerCall.handler).Pairwise (· < ·) := by
  obtain ⟨k, hk, hcalls⟩ := Run.exists_of_map_exec (show (Run.exec
    (Worker.step .chatty) (Worker.start ⟨0, .reading 3⟩) chattyRun).map
      (fun k => k.calls.map HandlerCall.handler) = .ok [0, 1, 2] by decide)
  exact ⟨k, hk, hcalls, Worker.own_results_in_order hk⟩

end Db
