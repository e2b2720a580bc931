import Harmony.DbPipeline

/-!
# Prepared statements

A statement is prepared once for each connection to the database, by whoever
needs it first: `query_prepared` looks whether its name is in
`prepared_queries_`, and if it is not, sends a Prepare made from the query file
and waits for its result before it sends the query itself. Everybody else finds
the name in the set and relies on the order of the pipeline – the Prepare is
executed before whatever is queued behind it.

So a name in the set is a promise: the server has the statement, or a Prepare
for it is on its way (`Preparing.Accurate`). But the name is entered when the
Prepare is queued and never taken out again. Once a Prepare has failed, and
there is no other one, the promise is broken for good: all that follow send
queries for a statement the server does not know. `Preparing.Mended` says of a
step that it does not report such a failure; in a run of mended steps the set
is accurate throughout (`Preparing.accurate_of_mended`).

The names in the set are views of the callers' texts, which are taken to last as
long as the session. What `write` and `read` do in their loops is done here one
query and one result at a time, so that everything may come in between.
-/

namespace Db

/-- The query at the front of the queue is sent. -/
def Session.dispatchFirst (s : Session) : Session :=
  { s with
    queued := s.queued.tail
    dispatched := s.dispatched ++ s.queued.head?.toList.map Query.dispatched }

/-- **What a batch sends is sent one by one.** -/
theorem Session.Sends.iterate {w : World} {s s' : Session} {moved : List Query}
    (h : Session.Sends w s s' moved) :
    (Session.dispatchFirst^[moved.length] s).queued = s'.queued
      ∧ (Session.dispatchFirst^[moved.length] s).dispatched = s'.dispatched := by
  have hmoved := h.queued
  rw [h.dispatched]
  generalize s'.queued = left at hmoved
  clear h
  induction moved generalizing s with
  | nil => exact ⟨hmoved, (List.append_nil _).symm⟩
  | cons q moved ih =>
    have hfirst : s.dispatchFirst.queued = moved ++ left := by
      unfold Session.dispatchFirst
      rw [hmoved]
      rfl
    obtain ⟨hqueued, hdispatched⟩ := ih hfirst
    rw [List.length_cons, Function.iterate_succ_apply]
    refine ⟨hqueued, hdispatched.trans ?_⟩
    unfold Session.dispatchFirst
    rw [hmoved]
    exact List.append_assoc _ _ _

/-- The statement that a query prepares. -/
def Query.prepares (q : Query) : Option Bytes :=
  match q.arg with
  | .prepare statement _ => some statement
  | _ => none

/-! ## The session, the connection and the server -/

/-- **What a completion handler does** with its result. -/
inductive Continuation where
  /-- It hands it to whoever asked. -/
  | hand
  /-- It goes on with `query_prepared`, behind the `co_await`. -/
  | execute (statement : Bytes) (params : List Bytes)
  deriving DecidableEq, Repr

/-- **A command on the wire**, until its result has been read: whether the
server has executed it, and with success. -/
structure Command where
  query : Query
  outcome : Option Bool
  deriving DecidableEq, Repr

/-- **A session and the server behind it.** -/
structure Preparing where
  session : Session
  wire : List Command
  /-- The statements that the server has prepared. -/
  server : List Bytes
  /-- What the completion handlers do, by their numbers. -/
  handlers : List Continuation
  /-- The streams that are gone. -/
  closed : List ℕ

/-- **What happens**: the calls of `Connection`, by streams, and what becomes
of them. -/
inductive Preparing.Step where
  /-- `prepare`, from a text. -/
  | prepare (stream : ℕ) (statement command : Bytes)
  /-- `prepare`, from a file. -/
  | prepareFile (stream : ℕ) (statement : Bytes) (fd : ℕ)
  /-- `query_prepared` in a coroutine, with the query file if it can be
  opened. -/
  | queryPrepared (stream : ℕ) (statement : Bytes) (params : List Bytes)
      (file : Option ℕ)
  /-- `query_prepared` with a callback. -/
  | queryPreparedCb (stream : ℕ) (statement : Bytes) (params : List Bytes)
  /-- The query at the front of the queue is sent. -/
  | send
  /-- The server executes the next command. -/
  | execute (ok : Bool)
  /-- The result of the first command is read. -/
  | report
  | closeStream (stream : ℕ)
  deriving DecidableEq, Repr

namespace Preparing

/-- A connection on which nothing has happened. -/
def start : Preparing := ⟨Session.init, [], [], [], []⟩

/-- One of the `send_*` functions is called with a new completion handler. -/
def submit (k : Preparing) (send : ℕ → Session) (next : Continuation) :
    Preparing :=
  { k with
    session := send k.handlers.length
    handlers := k.handlers ++ [next] }

/-- **`Connection::query_prepared`**, up to where it first waits. -/
def queryPrepared (k : Preparing) (stream : ℕ) (statement : Bytes)
    (params : List Bytes) (file : Option ℕ) : Preparing :=
  if k.session.checkPreparedQuery statement then
    k.submit (k.session.sendQueryPrepared stream statement params) .hand
  else
    match file with
    -- couldn't find query file
    | none => k
    | some fd =>
      k.submit (k.session.sendPreparedFile stream statement fd)
        (.execute statement params)

/-- `handle_result`, for a stream that is alive. -/
def resume (k : Preparing) (q : Query) (ok : Bool) : Preparing :=
  match k.handlers[q.completionHandler]? with
  | some (.execute statement params) =>
    if ok then
      k.submit (k.session.sendQueryPrepared q.streamSerial statement params)
        .hand
    else k
  | _ => k

/-- The first command is done with. -/
def popFront (k : Preparing) (wire : List Command) : Preparing :=
  { k with
    session := { k.session with dispatched := k.session.dispatched.tail }
    wire := wire }

/-- The next command that the server executes. -/
def executeNext (ok : Bool) : List Command → List Command × Option Query
  | [] => ([], none)
  | c :: wire =>
    if c.outcome = none then (⟨c.query, some ok⟩ :: wire, some c.query)
    else (c :: (executeNext ok wire).1, (executeNext ok wire).2)

/-- **One step.** -/
def step (k : Preparing) : Step → Except Fault Preparing
  | .prepare stream statement command =>
    .ok (k.submit (k.session.sendPrepared stream statement command) .hand)
  | .prepareFile stream statement fd =>
    .ok (k.submit (k.session.sendPreparedFile stream statement fd) .hand)
  | .queryPrepared stream statement params file =>
    .ok (k.queryPrepared stream statement params file)
  | .queryPreparedCb stream statement params =>
    .ok (k.submit (k.session.sendQueryPrepared stream statement params) .hand)
  | .send =>
    .ok { k with
      session := k.session.dispatchFirst
      wire := k.wire
        ++ k.session.queued.head?.toList.map fun q => ⟨q, none⟩ }
  | .execute ok =>
    .ok { k with
      wire := (executeNext ok k.wire).1
      server := k.server ++ if ok then
        ((executeNext ok k.wire).2.bind Query.prepares).toList else [] }
  | .report =>
    match k.wire with
    | ⟨q, some ok⟩ :: wire =>
      if q.streamSerial ∈ k.closed then .ok (k.popFront wire)
      else .ok ((k.popFront wire).resume q ok)
    | _ => .ok k
  | .closeStream stream => .ok { k with closed := stream :: k.closed }

/-! ## What the set promises -/

/-- The server has a statement, or a Prepare for it is queued or among some
commands. -/
def CoveredBy (k : Preparing) (statement : Bytes) (wire : List Command) : Prop :=
  statement ∈ k.server
    ∨ (∃ q ∈ k.session.queued, q.prepares = some statement)
    ∨ ∃ c ∈ wire, c.query.prepares = some statement

/-- The server has a statement, or a Prepare for it is on its way. -/
def Covered (k : Preparing) (statement : Bytes) : Prop :=
  k.CoveredBy statement k.wire

/-- **The set is accurate**: what is in it the server has, or a Prepare for it
is on its way; and a statement of which neither is true is prepared by the next
`query_prepared`. -/
structure Accurate (k : Preparing) : Prop where
  sound : ∀ statement ∈ k.session.preparedQueries, k.Covered statement
  retried : ∀ stream statement params fd, ¬ k.Covered statement →
    (k.queryPrepared stream statement params (some fd)).session.queued
      = k.session.queued ++ [⟨stream, true, .prepare statement (.file fd),
        k.handlers.length⟩]

/-- **A step is mended** if it does not report the failure of a Prepare that was
the last one for its statement. -/
def Mended (k : Preparing) : Step → Prop
  | .report => ∀ c ∈ k.wire.head?, c.outcome = some false →
    ∀ statement ∈ c.query.prepares, k.CoveredBy statement k.wire.tail
  | _ => True

instance (k : Preparing) (statement : Bytes) (wire : List Command) :
    Decidable (k.CoveredBy statement wire) :=
  inferInstanceAs (Decidable (_ ∨ _ ∨ _))

instance decidableMended (k : Preparing) : (e : Step) → Decidable (k.Mended e)
  | .report => inferInstanceAs (Decidable (∀ c ∈ k.wire.head?, _))
  | .prepare _ _ _ => isTrue trivial
  | .prepareFile _ _ _ => isTrue trivial
  | .queryPrepared _ _ _ _ => isTrue trivial
  | .queryPreparedCb _ _ _ => isTrue trivial
  | .send => isTrue trivial
  | .execute _ => isTrue trivial
  | .closeStream _ => isTrue trivial

/-! ## The invariant -/

/-- **The set is sound**, and a Prepare that has succeeded has done so on the
server. -/
structure Inv (k : Preparing) : Prop where
  sound : ∀ statement ∈ k.session.preparedQueries, k.Covered statement
  done : ∀ c ∈ k.wire, c.outcome = some true →
    ∀ statement ∈ c.query.prepares, statement ∈ k.server

variable {k k' : Preparing}

theorem inv_start : start.Inv :=
  ⟨fun _ h => absurd h List.not_mem_nil, fun _ h => absurd h List.not_mem_nil⟩

/-- **A sound set is accurate**: what is not covered is not in it. -/
theorem Inv.accurate (h : k.Inv) : k.Accurate := by
  refine ⟨h.sound, fun stream statement params fd hnot => ?_⟩
  have hunknown : statement ∉ k.session.preparedQueries :=
    fun hmem => hnot (h.sound statement hmem)
  unfold queryPrepared
  rw [Session.checkPreparedQuery, decide_eq_false hunknown,
    if_neg Bool.false_ne_true]
  show (k.session.addPreparedQuery statement).queued ++ _ = _
  unfold Session.addPreparedQuery
  rw [if_neg hunknown]

/-- **A query behind the others keeps the set sound**, if its own statement is
all it adds to it. -/
theorem Inv.submit (h : k.Inv) {send : ℕ → Session} {next : Continuation}
    {q : Query} (hqueued : (send k.handlers.length).queued
      = k.session.queued ++ [q])
    (hadds : ∀ statement ∈ (send k.handlers.length).preparedQueries,
      statement ∈ k.session.preparedQueries ∨ q.prepares = some statement) :
    (k.submit send next).Inv := by
  refine ⟨fun statement hmem => ?_, h.done⟩
  show statement ∈ k.server
    ∨ (∃ q' ∈ (send k.handlers.length).queued, _) ∨ ∃ c ∈ k.wire, _
  rw [hqueued]
  rcases hadds statement hmem with hold | hnew
  · refine (h.sound statement hold).imp_right (Or.imp_left ?_)
    rintro ⟨q', hq', hprepares⟩
    exact ⟨q', List.mem_append_left _ hq', hprepares⟩
  · exact Or.inr (Or.inl ⟨q, List.mem_append_right _ List.mem_cons_self, hnew⟩)

/-- A query for a prepared statement adds nothing to the set. -/
theorem Inv.sendQueryPrepared (h : k.Inv) (stream : ℕ) (statement : Bytes)
    (params : List Bytes) (next : Continuation) :
    (k.submit (k.session.sendQueryPrepared stream statement params)
      next).Inv :=
  h.submit rfl fun _ hmem => Or.inl hmem

/-- What `add_prepared_query` adds. -/
theorem addPreparedQuery_spec (s : Session) (statement : Bytes) :
    (s.addPreparedQuery statement).queued = s.queued
      ∧ ∀ st ∈ (s.addPreparedQuery statement).preparedQueries,
        st ∈ s.preparedQueries ∨ some statement = some st := by
  unfold Session.addPreparedQuery
  split_ifs
  · exact ⟨rfl, fun _ hmem => Or.inl hmem⟩
  · refine ⟨rfl, fun st hmem => ?_⟩
    exact (List.mem_cons.mp hmem).symm.imp_right fun heq => congrArg some heq.symm

/-- **A Prepare adds the statement it prepares.** -/
theorem Inv.sendPrepared (h : k.Inv) (stream : ℕ) (statement command : Bytes)
    (next : Continuation) :
    (k.submit (k.session.sendPrepared stream statement command) next).Inv :=
  let ⟨hqueued, hadds⟩ := addPreparedQuery_spec k.session statement
  h.submit (q := ⟨stream, true, .prepare statement (.command command), _⟩)
    (congrArg (· ++ _) hqueued) hadds

/-- A Prepare from a file does as well. -/
theorem Inv.sendPreparedFile (h : k.Inv) (stream : ℕ) (statement : Bytes)
    (fd : ℕ) (next : Continuation) :
    (k.submit (k.session.sendPreparedFile stream statement fd) next).Inv :=
  let ⟨hqueued, hadds⟩ := addPreparedQuery_spec k.session statement
  h.submit (q := ⟨stream, true, .prepare statement (.file fd), _⟩)
    (congrArg (· ++ _) hqueued) hadds

/-- What goes on behind a result keeps the set sound. -/
theorem Inv.resume (h : k.Inv) (q : Query) (ok : Bool) :
    (k.resume q ok).Inv := by
  unfold Preparing.resume
  split
  · split_ifs
    · exact h.sendQueryPrepared _ _ _ _
    · exact h
  · exact h

/-- **Sending moves a Prepare** from the queue onto the wire. -/
theorem Inv.send (h : k.Inv) (hstep : k.step .send = .ok k') : k'.Inv := by
  have hk' := (Except.ok.inj hstep).symm
  subst hk'
  refine ⟨fun statement hmem => ?_, fun c hc hok => ?_⟩
  · show statement ∈ k.server ∨ (∃ q ∈ k.session.queued.tail, _)
      ∨ ∃ c ∈ k.wire ++ k.session.queued.head?.toList.map _, _
    rcases h.sound statement hmem with hserver | ⟨q, hq, hprepares⟩
      | ⟨c, hc, hprepares⟩
    · exact Or.inl hserver
    · refine Or.inr ?_
      cases hqueued : k.session.queued with
      | nil =>
        rw [hqueued] at hq
        exact absurd hq List.not_mem_nil
      | cons q₀ rest =>
        rw [hqueued] at hq
        rcases List.mem_cons.mp hq with rfl | hq
        · exact Or.inr ⟨⟨q, none⟩,
            List.mem_append_right _ List.mem_cons_self, hprepares⟩
        · exact Or.inl ⟨q, hq, hprepares⟩
    · exact Or.inr (Or.inr ⟨c, List.mem_append_left _ hc, hprepares⟩)
  · rcases List.mem_append.mp hc with hc | hc
    · exact h.done c hc hok
    · obtain ⟨q, -, rfl⟩ := List.mem_map.mp hc
      cases hok

/-- What the server executes stays on the wire, with its outcome. -/
theorem executeNext_spec (ok : Bool) (wire : List Command) :
    (executeNext ok wire).1.map Command.query = wire.map Command.query
      ∧ ∀ c ∈ (executeNext ok wire).1, c ∈ wire
        ∨ c.outcome = some ok ∧ (executeNext ok wire).2 = some c.query := by
  induction wire with
  | nil => exact ⟨rfl, fun _ hc => absurd hc List.not_mem_nil⟩
  | cons c wire ih =>
    rw [executeNext]
    split_ifs with hnext
    · refine ⟨rfl, fun c' hc' => ?_⟩
      rcases List.mem_cons.mp hc' with rfl | hc'
      · exact Or.inr ⟨rfl, rfl⟩
      · exact Or.inl (List.mem_cons_of_mem _ hc')
    · refine ⟨congrArg (c.query :: ·) ih.1, fun c' hc' => ?_⟩
      rcases List.mem_cons.mp hc' with rfl | hc'
      · exact Or.inl List.mem_cons_self
      · exact (ih.2 c' hc').imp_left (List.mem_cons_of_mem _)

/-- **Executing** makes the statement of a Prepare that succeeds known to the
server. -/
theorem Inv.execute (h : k.Inv) {ok : Bool}
    (hstep : k.step (.execute ok) = .ok k') : k'.Inv := by
  obtain ⟨hqueries, houtcomes⟩ := executeNext_spec ok k.wire
  have hk' := (Except.ok.inj hstep).symm
  subst hk'
  refine ⟨fun statement hmem => ?_, fun c hc hok statement hprepares => ?_⟩
  · rcases h.sound statement hmem with hserver | hqueued | ⟨c, hc, hprepares⟩
    · exact Or.inl (List.mem_append_left _ hserver)
    · exact Or.inr (Or.inl hqueued)
    · have hmem : c.query ∈ (executeNext ok k.wire).1.map Command.query :=
        hqueries ▸ List.mem_map_of_mem hc
      obtain ⟨c', hc', heq⟩ := List.mem_map.mp hmem
      exact Or.inr (Or.inr ⟨c', hc', heq ▸ hprepares⟩)
  · rcases houtcomes c hc with hold | ⟨houtcome, hnext⟩
    · exact List.mem_append_left _ (h.done c hold hok statement hprepares)
    · refine List.mem_append_right _ ?_
      rw [if_pos (Option.some.inj (houtcome.symm.trans hok)), hnext,
        Option.bind_some, Option.mem_toList]
      exact hprepares

/-- **Reporting** takes a Prepare off the wire, which is mended if it has not
succeeded. -/
theorem Inv.report (h : k.Inv) (hmended : k.Mended .report)
    (hstep : k.step .report = .ok k') : k'.Inv := by
  rw [step] at hstep
  split at hstep
  · rename_i q ok wire hwire
    have hpop : (k.popFront wire).Inv := by
      refine ⟨fun statement hmem => ?_, fun c hc =>
        h.done c (hwire ▸ List.mem_cons_of_mem _ hc)⟩
      show k.CoveredBy statement wire
      rcases h.sound statement hmem with hserver | hqueued | ⟨c, hc, hprepares⟩
      · exact Or.inl hserver
      · exact Or.inr (Or.inl hqueued)
      · rw [hwire] at hc
        rcases List.mem_cons.mp hc with rfl | hc
        · cases ok with
          | true =>
            exact Or.inl (h.done ⟨q, some true⟩ (hwire ▸ List.mem_cons_self)
              rfl statement hprepares)
          | false =>
            have hcovered := hmended ⟨q, some false⟩
              (hwire ▸ rfl) rfl statement hprepares
            rw [hwire] at hcovered
            exact hcovered
        · exact Or.inr (Or.inr ⟨c, hc, hprepares⟩)
    split_ifs at hstep
    · exact Except.ok.inj hstep ▸ hpop
    · exact Except.ok.inj hstep ▸ hpop.resume q ok
  · exact Except.ok.inj hstep ▸ h

/-- **A mended step keeps the set sound.** -/
theorem Inv.step {e : Step} (h : k.Inv) (hmended : k.Mended e)
    (hstep : k.step e = .ok k') : k'.Inv := by
  cases e with
  | prepare stream statement command =>
    exact Except.ok.inj hstep ▸ h.sendPrepared stream statement command .hand
  | prepareFile stream statement fd =>
    exact Except.ok.inj hstep ▸ h.sendPreparedFile stream statement fd .hand
  | queryPreparedCb stream statement params =>
    exact Except.ok.inj hstep
      ▸ h.sendQueryPrepared stream statement params .hand
  | queryPrepared stream statement params file =>
    refine Except.ok.inj hstep ▸ ?_
    unfold queryPrepared
    split_ifs
    · exact h.sendQueryPrepared stream statement params .hand
    · cases file with
      | none => exact h
      | some fd => exact h.sendPreparedFile stream statement fd _
  | send => exact h.send hstep
  | execute ok => exact h.execute hstep
  | report => exact h.report hmended hstep
  | closeStream stream =>
    exact Except.ok.inj hstep ▸ ⟨h.sound, h.done⟩

/-! ## Runs -/

/-- **The set is accurate while failures are mended.** However the calls of the
streams interleave with what is sent, executed and read: if no step reports the
failure of a Prepare that was the last one for its statement, then in the state
reached the server has every statement of the set, or a Prepare for it is on
its way; and the next `query_prepared` prepares any other one. -/
theorem accurate_of_mended {steps : List Step}
    (hmended : Run.Throughout Preparing.step Mended start steps)
    (h : Run.exec Preparing.step start steps = .ok k) : k.Accurate :=
  (Run.invariant (fun _ _ _ hk hm hstep => Inv.step hk hm hstep) inv_start
    hmended h).accurate

/-- A Prepare that fails while there is another one for its statement. -/
def twoPreparesRun : List Step :=
  [.queryPrepared 0 (bytes "q") [] (some 3),
    .prepare 1 (bytes "q") (bytes "SELECT 1"), .send, .execute false, .report,
    .send, .execute true, .report, .queryPrepared 1 (bytes "q") [] none]

theorem twoPreparesRun_accurate :
    ∃ k, Run.exec step start twoPreparesRun = .ok k
      ∧ k.server = [bytes "q"] ∧ k.Accurate := by
  obtain ⟨k, hk, hserver⟩ := Run.exists_of_map_exec
    (show (Run.exec step start twoPreparesRun).map Preparing.server
      = .ok [bytes "q"] by decide)
  exact ⟨k, hk, hserver, accurate_of_mended (by decide) hk⟩

/-- The query file of a statement does not parse. -/
def badFileRun : List Step :=
  [.queryPrepared 0 (bytes "q") [] (some 3), .send, .execute false, .report]

/-- **The name of a statement that could not be prepared stays in the set.** -/
theorem badFileRun_not_accurate :
    ¬ ∀ (steps : List Step) (k : Preparing),
      Run.exec step start steps = .ok k → k.Accurate := by
  intro h
  obtain ⟨k, hk, hstate⟩ := Run.exists_of_map_exec
    (show (Run.exec step start badFileRun).map (fun k =>
        (k.session.preparedQueries, k.server, k.session.queued, k.wire))
      = .ok ([bytes "q"], [], [], []) by decide)
  simp only [Prod.mk.injEq] at hstate
  obtain ⟨hprepared, hserver, hqueued, hwire⟩ := hstate
  have hcovered := (h badFileRun k hk).sound (bytes "q")
    (hprepared ▸ List.mem_cons_self)
  unfold Covered CoveredBy at hcovered
  rw [hserver, hqueued, hwire] at hcovered
  rcases hcovered with hmem | ⟨q, hq, -⟩ | ⟨c, hc, -⟩
  · exact List.not_mem_nil hmem
  · exact List.not_mem_nil hq
  · exact List.not_mem_nil hc

end Preparing

end Db
