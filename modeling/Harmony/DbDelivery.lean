import Harmony.DbPipeline

/-!
# No query is forgotten

Whoever submits a query waits for its completion handler. While the stream of
a query is alive, the query should wait in `queued_`, or in `dispatched_` with
its result still to be read, until its handler has been called, once
(`Db.Worker.Accounted`).

The code falls short in two places. The result of an empty query is dropped
without calling the handler, unlike that of a query that failed. And a session
that fails is replaced with everything that was in its two queues; nobody is
told. `Db.Worker.Harmless` says of an event, and of the state it comes in,
that neither happens to a query of a stream that is alive. In a run of
harmless events every query is accounted for
(`Db.Worker.accounted_of_harmless`).
-/

namespace Db

namespace Worker

/-! ## What should hold -/

/-- A query waits for its result: to be sent, or for a reply not read yet. -/
def Waits (w : World) (k : Worker) (handler : ℕ) : Prop :=
  handler ∈ k.session.queued.map Query.completionHandler
  ∨ handler ∈ k.session.dispatched.map DispatchedQuery.completionHandler
    ∧ Item.result ⟨handler, w.status handler⟩ ∈ k.session.pq.pending

/-- **Every query of a live stream is accounted for**: its handler has been
called once, or it waits. -/
def Accounted (w : World) (k : Worker) : Prop :=
  ∀ handler stream, k.submitted[handler]? = some stream →
    stream ∈ k.aliveStreams →
    ((k.calls.map HandlerCall.handler).count handler = 1
      ∧ ¬ k.Waits w handler)
    ∨ ((k.calls.map HandlerCall.handler).count handler = 0
      ∧ k.Waits w handler)

/-! ## What does no harm -/

/-- A query of a stream that is alive has no result yet. -/
def Outstanding (k : Worker) : Prop :=
  (∃ q ∈ k.session.queued, q.streamSerial ∈ k.aliveStreams)
  ∨ ∃ d ∈ k.session.dispatched, d.streamSerial ∈ k.aliveStreams

instance (k : Worker) : Decidable k.Outstanding :=
  inferInstanceAs (Decidable (_ ∨ _))

/-- The queries whose results `read` comes to in so many rounds: it takes one
round for a result and one for a marker. -/
def reached (k : Worker) (ready : ℕ) : List DispatchedQuery :=
  k.session.dispatched.take
    ((ready + if k.session.pq.pending.head? = some .pipelineSync then 0 else 1)
      / 2)

/-- Those in front of the first that fails the session. -/
def served (w : World) (l : List DispatchedQuery) : List DispatchedQuery :=
  l.takeWhile fun d =>
    decide (treatment (w.status d.completionHandler) ≠ .fail)

/-- **Reading does no harm**: what it comes to is handed to the handlers of the
live streams, and if it fails nobody waits for what is left. -/
def ReadHarmless (w : World) (k : Worker) (l : List DispatchedQuery) : Prop :=
  (∀ d ∈ served w l, d.streamSerial ∈ k.aliveStreams →
    treatment (w.status d.completionHandler) = .deliver)
  ∧ ((served w l).length < l.length →
    (∀ q ∈ k.session.queued, q.streamSerial ∉ k.aliveStreams)
    ∧ (∀ d ∈ k.session.dispatched.drop (served w l).length,
      d.streamSerial ∉ k.aliveStreams)
    ∧ ∀ d ∈ served w l, d.streamSerial ∈ k.aliveStreams →
      ∀ c ∈ w.submits d.completionHandler, c.1 ∉ k.aliveStreams)

/-- Whether the connection fails with an answer. -/
def pollFails : PollAnswer → Bool
  | .ok nonblocking pipeline => !(nonblocking && pipeline)
  | .failed => true
  | _ => false

/-- **An event does no harm**: if the session fails, nobody waits for what is
lost with it, and no result for a live stream is dropped. -/
def Harmless (w : World) (k : Worker) : Event → Prop
  | .submit _ _ => True
  | .openStream => True
  | .closeStream _ => True
  | .readable consumed ready poll _ =>
    k.session.rev = true →
      (k.session.readFn = .pollConnection →
        pollFails poll.answer = true → ¬ k.Outstanding)
      ∧ (k.session.readFn = .io →
        if consumed = false then ¬ k.Outstanding
        else k.ReadHarmless w (k.reached ready))
  | .writable flushes poll _ =>
    k.session.wev = true →
      (k.session.writeFn = .pollConnection →
        pollFails poll.answer = true → ¬ k.Outstanding)
      ∧ (k.session.writeFn = .io →
        k.session.WriteFails w flushes → ¬ k.Outstanding)

instance (w : World) (k : Worker) (l : List DispatchedQuery) :
    Decidable (k.ReadHarmless w l) :=
  inferInstanceAs (Decidable ((∀ d ∈ served w l, _ → _) ∧ (_ → _ ∧ _ ∧
    ∀ d ∈ served w l, _ → ∀ c ∈ w.submits d.completionHandler, _)))

instance (w : World) (answers : List FlushAnswer) (s : Session) :
    Decidable (s.WriteFails w answers) :=
  inferInstanceAs (Decidable (_ ∨ _))

instance decidableHarmless (w : World) (k : Worker) :
    ∀ e, Decidable (k.Harmless w e)
  | .submit _ _ => isTrue trivial
  | .openStream => isTrue trivial
  | .closeStream _ => isTrue trivial
  | .readable _ _ _ _ => inferInstanceAs (Decidable (_ → _ ∧ _))
  | .writable _ _ _ => inferInstanceAs (Decidable (_ → _ ∧ _))

/-! ## The invariant -/

/-- **The queries are tracked**: an entry of a queue carries the stream of its
handler, streams are never numbered twice, and the handler of every query of a
live stream is in one of the queues or has been called. -/
structure Tracked (k : Worker) : Prop where
  queued : ∀ q ∈ k.session.queued,
    k.submitted[q.completionHandler]? = some q.streamSerial
  dispatched : ∀ d ∈ k.session.dispatched,
    k.submitted[d.completionHandler]? = some d.streamSerial
  submitted : ∀ stream ∈ k.submitted, stream < k.nextStreamSerial
  alive : ∀ stream ∈ k.aliveStreams, stream < k.nextStreamSerial
  handlers : ∀ handler stream, k.submitted[handler]? = some stream →
    stream ∈ k.aliveStreams → handler ∈ k.handlers

/-- The result of a query that has been sent is still to be read. -/
theorem Aligned.result_mem {w : World} {k : Worker} (h : k.Aligned w)
    {handler : ℕ} (hsent : handler
      ∈ k.session.dispatched.map DispatchedQuery.completionHandler) :
    Item.result ⟨handler, w.status handler⟩ ∈ k.session.pq.pending := by
  obtain ⟨d, hd, rfl⟩ := List.mem_map.mp hsent
  have hmem : Item.result ⟨d.completionHandler, w.status d.completionHandler⟩
      ∈ k.session.dispatched.flatMap w.reply :=
    List.mem_flatMap.mpr ⟨d, hd, List.mem_cons_self⟩
  rcases h.pending with hp | hp
  · rw [hp]
    exact hmem
  · rw [hp]
    exact List.mem_cons_of_mem _ hmem

/-- **A tracked query is accounted for**: the handlers come only once, and the
reply to a query that has been sent is still to be read. -/
theorem Aligned.accounted {w : World} {k : Worker} (haligned : k.Aligned w)
    (htracked : k.Tracked) : k.Accounted w := by
  intro handler stream hsubmitted halive
  have hmem := htracked.handlers handler stream hsubmitted halive
  have hnodup : k.handlers.Nodup :=
    haligned.ordered.nodup List.nodup_range
  unfold Worker.handlers at hmem hnodup
  rw [List.append_assoc] at hmem hnodup
  obtain ⟨hcalls, -, hdisjoint⟩ := List.nodup_append.mp hnodup
  rcases List.mem_append.mp hmem with hcalled | hwaiting
  · refine Or.inl ⟨List.count_eq_one_of_mem hcalls hcalled, fun hwaits => ?_⟩
    refine hdisjoint handler hcalled handler ?_ rfl
    exact hwaits.elim (List.mem_append_right _)
      (fun h => List.mem_append_left _ h.1)
  · refine Or.inr ⟨List.count_eq_zero_of_not_mem fun hcalled =>
      hdisjoint handler hcalled handler hwaiting rfl, ?_⟩
    rcases List.mem_append.mp hwaiting with hsent | hqueued
    · exact Or.inr ⟨hsent, haligned.result_mem hsent⟩
    · exact Or.inl hqueued

namespace Tracked

variable {w : World} {k k' : Worker}

theorem congr (h : k.Tracked) (hqueued : k'.session.queued = k.session.queued)
    (hdispatched : k'.session.dispatched = k.session.dispatched)
    (hsubmitted : k'.submitted = k.submitted) (hcalls : k'.calls = k.calls)
    (halive : k'.aliveStreams = k.aliveStreams)
    (hnext : k'.nextStreamSerial = k.nextStreamSerial) : k'.Tracked where
  queued := by
    rw [hqueued, hsubmitted]
    exact h.queued
  dispatched := by
    rw [hdispatched, hsubmitted]
    exact h.dispatched
  submitted := by
    rw [hsubmitted, hnext]
    exact h.submitted
  alive := by
    rw [halive, hnext]
    exact h.alive
  handlers := by
    unfold Worker.handlers
    rw [hsubmitted, halive, hcalls, hdispatched, hqueued]
    exact h.handlers

/-- The entries of the queues carry their streams. -/
theorem owned (h : k.Tracked) : k.Owned := ⟨h.queued, h.dispatched⟩

theorem submits {new : List Query} (h : k.Tracked) (hs : k.Submits k' new) :
    k'.Tracked where
  queued := (h.owned.submits hs).queued
  dispatched := (h.owned.submits hs).dispatched
  submitted := by
    rw [hs.submitted, hs.nextStreamSerial]
    intro stream hstream
    rcases List.mem_append.mp hstream with hstream | hstream
    · exact h.submitted stream hstream
    · obtain ⟨q, hq, rfl⟩ := List.mem_map.mp hstream
      exact h.alive _ (hs.alive q hq)
  alive := by
    rw [hs.aliveStreams, hs.nextStreamSerial]
    exact h.alive
  handlers := by
    rw [hs.aliveStreams, hs.handlers_eq, hs.submitted]
    intro handler stream hsubmitted halive
    rcases Nat.lt_or_ge handler k.submitted.length with hlt | hge
    · rw [List.getElem?_append_left hlt] at hsubmitted
      exact List.mem_append_left _
        (h.handlers handler stream hsubmitted halive)
    · have hlt := (List.getElem?_eq_some_iff.mp hsubmitted).1
      rw [List.length_append, List.length_map] at hlt
      exact List.mem_append_right _ (List.mem_range'_1.mpr ⟨hge, hlt⟩)

theorem sends {s' : Session} {moved : List Query} (h : k.Tracked)
    (hs : Session.Sends w k.session s' moved) :
    Tracked { k with session := s' } where
  queued := (h.owned.sends hs).queued
  dispatched := (h.owned.sends hs).dispatched
  submitted := h.submitted
  alive := h.alive
  handlers := by
    rw [handlers_sends hs]
    exact h.handlers

/-- The query at the front may be answered if it is heard, or nobody
listens. -/
theorem answered {d : DispatchedQuery} {ds : List DispatchedQuery}
    (h : k.Tracked) (hdispatched : k.session.dispatched = d :: ds)
    (hdeliver : d.streamSerial ∈ k.aliveStreams →
      treatment (w.status d.completionHandler) = .deliver) :
    (k.answered w d).Tracked where
  queued := (h.owned.answered d).queued
  dispatched := (h.owned.answered d).dispatched
  submitted := h.submitted
  alive := h.alive
  handlers := by
    intro handler stream hsubmitted halive
    obtain ⟨hbefore, hafter⟩ := handlers_answered (w := w) hdispatched
    have hmem := h.handlers handler stream hsubmitted halive
    rw [hbefore] at hmem
    rw [hafter]
    rcases List.mem_append.mp hmem with hmem | hmem
    · exact List.mem_append_left _ hmem
    refine List.mem_append_right _ ?_
    rcases List.mem_cons.mp hmem with rfl | hmem
    · have hstream : d.streamSerial = stream := Option.some.inj
        ((h.dispatched d (hdispatched ▸ List.mem_cons_self)).symm.trans
          hsubmitted)
      have hd : d.streamSerial ∈ k.aliveStreams := hstream ▸ halive
      rw [if_pos ⟨hdeliver hd, hd⟩]
      exact List.mem_cons_self
    · exact List.mem_append_right _ hmem

/-- The session may be replaced if nobody waits. -/
theorem restart (h : k.Tracked) (hnone : ¬ k.Outstanding) (first : Poll) :
    (k.restartDbSession first).Tracked := by
  obtain ⟨hqueued, hdispatched⟩ := Owned.restart k first
  refine ⟨hqueued, hdispatched, h.submitted, h.alive, ?_⟩
  · intro handler stream hsubmitted halive
    rw [handlers_restart]
    have hmem := h.handlers handler stream hsubmitted halive
    rcases List.mem_append.mp hmem with hmem | hmem
    · refine (List.mem_append.mp hmem).resolve_right fun hsent => hnone ?_
      obtain ⟨d, hd, rfl⟩ := List.mem_map.mp hsent
      refine Or.inr ⟨d, hd, ?_⟩
      rw [Option.some.inj ((h.dispatched d hd).symm.trans hsubmitted)]
      exact halive
    · refine absurd ?_ hnone
      obtain ⟨q, hq, rfl⟩ := List.mem_map.mp hmem
      refine Or.inl ⟨q, hq, ?_⟩
      rw [Option.some.inj ((h.queued q hq).symm.trans hsubmitted)]
      exact halive

/-- Another session in place of one that has failed. -/
theorem orRestart {r : Worker × Bool} (h : r.1.Tracked)
    (hnone : r.2 = false → ¬ r.1.Outstanding) (first : Poll) :
    (Worker.orRestart first r).Tracked := by
  unfold Worker.orRestart
  split_ifs with hok
  · exact h
  · exact h.restart (hnone (eq_false_of_ne_true hok)) first

end Tracked

/-! ### Reading -/

section Reading

variable {w : World} {k k' : Worker}

theorem reached_of_marker {rest : List Item} (n : ℕ)
    (h : k.session.pq.pending = .pipelineSync :: rest) :
    k.reached n = k.session.dispatched.take (n / 2) := by
  unfold Worker.reached
  rw [h, List.head?_cons, if_pos rfl, Nat.add_zero]

theorem reached_of_replies (n : ℕ)
    (h : k.session.pq.pending = k.session.dispatched.flatMap w.reply) :
    k.reached n = k.session.dispatched.take ((n + 1) / 2) := by
  have hhead : k.session.pq.pending.head? ≠ some .pipelineSync := by
    intro hhead
    obtain ⟨rest, hrest⟩ := List.head?_eq_some_iff.mp hhead
    exact Aligned.flatMap_reply_ne_marker _ _ (h.symm.trans hrest)
  unfold Worker.reached
  rw [if_neg hhead]

/-- The same queries are reached in front of a marker and, with one round less,
behind it. -/
theorem reached_marker {rest : List Item} {n : ℕ} (h : k.Aligned w)
    (hpending : k.session.pq.pending = .pipelineSync :: rest) :
    (k.setPending rest).reached n = k.reached (n + 1) := by
  rw [reached_of_marker _ hpending]
  exact reached_of_replies (k := k.setPending rest) n (h.behind_marker hpending)

/-- The first query that is reached is the one at the front. -/
theorem reached_answer {d : DispatchedQuery} {ds : List DispatchedQuery}
    {new : List Query} {n : ℕ} (h : k.Aligned w)
    (hdispatched : k.session.dispatched = d :: ds)
    (hpending : k.session.pq.pending = (d :: ds).flatMap w.reply)
    (hs : (k.answered w d).Submits k' new) :
    k.reached (n + 1) = d :: k'.reached n := by
  have hrest : k'.session.pq.pending = .pipelineSync :: ds.flatMap w.reply := by
    rw [hs.pq]
    exact h.behind_answer hdispatched hpending
  have hds : k'.session.dispatched = ds := by
    rw [hs.dispatched]
    show k.session.dispatched.tail = ds
    rw [hdispatched, List.tail_cons]
  rw [← hdispatched] at hpending
  rw [reached_of_replies _ hpending, reached_of_marker _ hrest, hdispatched,
    hds, show (n + 1 + 1) / 2 = n / 2 + 1 by omega, List.take_succ_cons]

theorem served_cons_of_fail {d : DispatchedQuery} (l : List DispatchedQuery)
    (h : treatment (w.status d.completionHandler) = .fail) :
    served w (d :: l) = [] :=
  List.takeWhile_cons_of_neg fun hd => of_decide_eq_true hd h

theorem served_cons {d : DispatchedQuery} (l : List DispatchedQuery)
    (h : treatment (w.status d.completionHandler) ≠ .fail) :
    served w (d :: l) = d :: served w l :=
  List.takeWhile_cons_of_pos (decide_eq_true h)

/-- **If reading does no harm, nor does the rest of it** once the query at the
front has been answered. -/
theorem ReadHarmless.answered {d : DispatchedQuery} {ds : List DispatchedQuery}
    {l : List DispatchedQuery} {new : List Query}
    (h : k.ReadHarmless w (d :: l))
    (hdispatched : k.session.dispatched = d :: ds)
    (hs : (k.answered w d).Submits k' new)
    (hstreams : ∀ q ∈ new, k.Hears w d
      ∧ ∃ c ∈ w.submits d.completionHandler, c.1 = q.streamSerial)
    (hfail : treatment (w.status d.completionHandler) ≠ .fail) :
    k'.ReadHarmless w l := by
  have halive : k'.aliveStreams = k.aliveStreams := hs.aliveStreams
  have hds : k'.session.dispatched = ds := by
    rw [hs.dispatched]
    show k.session.dispatched.tail = ds
    rw [hdispatched, List.tail_cons]
  have hqueued : k'.session.queued = k.session.queued ++ new := hs.queued
  obtain ⟨hdeliver, hlost⟩ := h
  rw [served_cons l hfail] at hdeliver hlost
  rw [hdispatched, List.length_cons, List.length_cons, List.drop_succ_cons] at hlost
  unfold Worker.ReadHarmless
  rw [halive, hqueued, hds]
  refine ⟨fun d' hd' => hdeliver d' (List.mem_cons_of_mem d hd'), fun hlt => ?_⟩
  obtain ⟨hqueue, hrest, hsubmits⟩ := hlost (Nat.succ_lt_succ hlt)
  refine ⟨fun q hq => ?_, hrest,
    fun d' hd' => hsubmits d' (List.mem_cons_of_mem d hd')⟩
  rcases List.mem_append.mp hq with hq | hq
  · exact hqueue q hq
  · obtain ⟨hhears, c, hc, heq⟩ := hstreams q hq
    rw [← heq]
    exact hsubmits d List.mem_cons_self hhears.2 c hc

/-- Nobody waits once reading that does no harm has failed. -/
theorem ReadHarmless.not_outstanding {d : DispatchedQuery}
    {ds : List DispatchedQuery} {l : List DispatchedQuery} {new : List Query}
    (h : k.ReadHarmless w (d :: l))
    (hdispatched : k.session.dispatched = d :: ds)
    (hs : (k.answered w d).Submits k' new)
    (hstreams : ∀ q ∈ new, k.Hears w d
      ∧ ∃ c ∈ w.submits d.completionHandler, c.1 = q.streamSerial)
    (hfail : treatment (w.status d.completionHandler) = .fail) :
    d.streamSerial ∉ k.aliveStreams ∧ ¬ k'.Outstanding := by
  have hlost := h.2
  rw [served_cons_of_fail l hfail, List.length_nil, List.drop_zero,
    hdispatched] at hlost
  obtain ⟨hqueue, hrest, -⟩ := hlost (Nat.zero_lt_succ _)
  refine ⟨hrest d List.mem_cons_self, ?_⟩
  have halive : k'.aliveStreams = k.aliveStreams := hs.aliveStreams
  have hqueued : k'.session.queued = k.session.queued ++ new := hs.queued
  unfold Worker.Outstanding
  rw [halive, hqueued, hs.dispatched]
  rintro (⟨q, hq, hqalive⟩ | ⟨d', hd', hdalive⟩)
  · rcases List.mem_append.mp hq with hq | hq
    · exact hqueue q hq hqalive
    · obtain ⟨hhears, -⟩ := hstreams q hq
      exact absurd (hfail.symm.trans hhears.1) (by decide)
  · rw [← hdispatched] at hrest
    exact hrest d' (List.mem_of_mem_tail hd') hdalive

/-- **Reading that does no harm** loses track of no query. -/
theorem Tracked.read {consumed : Bool} {ready : ℕ} {r : Worker × Bool}
    (h : k.Tracked) (haligned : k.Aligned w)
    (hharmless : if consumed = false then ¬ k.Outstanding
      else k.ReadHarmless w (k.reached ready))
    (hread : k.read w consumed ready = .ok r) :
    r.1.Tracked ∧ (r.2 = false → ¬ r.1.Outstanding) := by
  unfold Worker.read at hread
  by_cases hconsumed : consumed = false
  · rw [if_pos hconsumed] at hread hharmless
    cases hread
    exact ⟨h, fun _ => hharmless⟩
  · rw [if_neg hconsumed] at hread hharmless
    obtain ⟨r', hr', -, hQ⟩ := haligned.readAll_rule
      (I := fun n k => k.Tracked ∧ k.ReadHarmless w (k.reached n))
      (Q := fun r => r.1.Tracked ∧ (r.2 = false → ¬ r.1.Outstanding))
      (fun n k hI _ => ⟨hI.1, fun hok => Bool.noConfusion hok⟩)
      (fun n k rest haligned hI hpending => by
        refine ⟨hI.1.congr rfl rfl rfl rfl rfl rfl, ?_⟩
        rw [reached_marker haligned hpending]
        exact hI.2)
      (fun n k d ds k' new haligned hI hdispatched hpending hs hstreams => by
        obtain ⟨htracked, hharmless⟩ := hI
        rw [reached_answer haligned hdispatched hpending hs] at hharmless
        split_ifs with hfail
        · obtain ⟨hdead, hnone⟩ :=
            hharmless.not_outstanding hdispatched hs hstreams hfail
          exact ⟨(htracked.answered hdispatched
            fun halive => absurd halive hdead).submits hs, fun _ => hnone⟩
        · refine ⟨(htracked.answered hdispatched fun halive => ?_).submits hs,
            hharmless.answered hdispatched hs hstreams hfail⟩
          refine hharmless.1 d ?_ halive
          rw [served_cons _ hfail]
          exact List.mem_cons_self)
      ready ⟨h, hharmless⟩
    rw [hr'] at hread
    cases hread
    exact hQ

end Reading

/-! ### Runs -/

namespace Tracked

variable {w : World} {k k' : Worker}

/-- Whether a poll fails. -/
theorem pollAnswer_fails (s : Session) (answer : PollAnswer) :
    (s.pollAnswer answer).2 = !pollFails answer := by
  cases answer with
  | reading fd => rfl
  | writing fd => rfl
  | ok nonblocking pipeline => cases nonblocking <;> cases pipeline <;> rfl
  | failed => rfl

/-- A poll that fails while nobody waits, or does not fail. -/
theorem poll (h : k.Tracked) (answer : PollAnswer)
    (hharmless : pollFails answer = true → ¬ k.Outstanding) (restart : Poll) :
    (Worker.orRestart restart
      (k.withSession (k.session.pollAnswer answer))).Tracked := by
  have hpolls := k.session.pollAnswer_polls answer
  refine orRestart (r := k.withSession (k.session.pollAnswer answer))
    (h.congr hpolls.queued hpolls.dispatched rfl rfl rfl rfl) ?_ restart
  intro hok
  have hfails : pollFails answer = true := by
    have hnot := (pollAnswer_fails k.session answer).symm.trans hok
    rwa [Bool.not_eq_false'] at hnot
  unfold Worker.Outstanding
  show ¬ ((∃ q ∈ (k.session.pollAnswer answer).1.queued, _)
    ∨ ∃ d ∈ (k.session.pollAnswer answer).1.dispatched, _)
  rw [hpolls.queued, hpolls.dispatched]
  exact hharmless hfails

/-- Sending never makes a query wait that did not. -/
theorem not_outstanding_sends {s' : Session} {moved : List Query}
    (hs : Session.Sends w k.session s' moved) (h : ¬ k.Outstanding) :
    ¬ Worker.Outstanding { k with session := s' } := by
  rintro (⟨q, hq, halive⟩ | ⟨d, hd, halive⟩)
  · exact h (Or.inl ⟨q, hs.queued ▸ List.mem_append_right moved hq, halive⟩)
  · rcases List.mem_append.mp (hs.dispatched ▸ hd) with hd | hd
    · exact h (Or.inr ⟨d, hd, halive⟩)
    · obtain ⟨q, hq, rfl⟩ := List.mem_map.mp hd
      exact h (Or.inl ⟨q, hs.queued ▸ List.mem_append_left _ hq, halive⟩)

/-- **A harmless event loses track of no query.** -/
theorem step {e : Event} (h : k.Tracked) (haligned : k.Aligned w)
    (hharmless : k.Harmless w e) (hstep : k.step w e = .ok k') :
    k'.Tracked := by
  cases e with
  | submit stream call =>
    cases hstep
    obtain ⟨new, hsubmits, -⟩ := k.submit_submits stream call
    exact h.submits hsubmits
  | openStream =>
    cases hstep
    refine ⟨h.queued, h.dispatched, fun stream hstream =>
      Nat.lt_succ_of_lt (h.submitted stream hstream), ?_, ?_⟩
    · intro stream hstream
      rcases Finset.mem_insert.mp hstream with rfl | hstream
      · exact Nat.lt_succ_self _
      · exact Nat.lt_succ_of_lt (h.alive stream hstream)
    · intro handler stream hsubmitted halive
      refine h.handlers handler stream hsubmitted
        ((Finset.mem_insert.mp halive).resolve_left ?_)
      -- the new stream has submitted nothing
      exact (h.submitted stream
        (List.mem_of_getElem? hsubmitted)).ne
  | closeStream stream =>
    cases hstep
    refine ⟨h.queued, h.dispatched, h.submitted, fun stream hstream =>
      h.alive stream (Finset.mem_of_mem_erase hstream), ?_⟩
    exact fun handler stream hsubmitted halive =>
      h.handlers handler stream hsubmitted (Finset.mem_of_mem_erase halive)
  | readable consumed ready poll restart =>
    rcases step_readable hstep with rfl | ⟨hrev, hfn, rfl⟩
      | ⟨hrev, hfn, r, hread, rfl⟩
    · exact h
    · exact h.poll poll.answer ((hharmless hrev).1 hfn) restart
    · obtain ⟨htracked, hnone⟩ :=
        h.read haligned ((hharmless hrev).2 hfn) hread
      exact htracked.orRestart hnone restart
  | writable flushes poll restart =>
    rcases step_writable hstep with rfl | ⟨hwev, hfn, rfl⟩
      | ⟨hwev, hfn, r, hwrite, rfl⟩
    · exact h
    · exact h.poll poll.answer ((hharmless hwev).1 hfn) restart
    · obtain ⟨moved, hwrites⟩ := Session.write_sends hwrite
      exact orRestart (r := k.withSession r) (h.sends hwrites.toSends)
        (fun hok => not_outstanding_sends hwrites.toSends
          ((hharmless hwev).2 hfn (hwrites.fails hok))) restart

/-- A worker that has done nothing yet. -/
theorem start (first : Poll) : (Worker.start first).Tracked := by
  have h : Worker.Tracked ⟨Session.init, ∅, 0, [], []⟩ :=
    ⟨fun _ hq => absurd hq List.not_mem_nil,
      fun _ hd => absurd hd List.not_mem_nil,
      fun _ hs => absurd hs List.not_mem_nil,
      fun _ hs => absurd hs (Finset.notMem_empty _),
      fun _ _ _ hs => absurd hs (Finset.notMem_empty _)⟩
  refine h.restart ?_ first
  rintro (⟨q, hq, -⟩ | ⟨d, hd, -⟩)
  · exact List.not_mem_nil hq
  · exact List.not_mem_nil hd

end Tracked

/-- **No query is forgotten in a run of harmless events.** If whenever the
session fails no query of a live stream is in its queues, and no result for a
live stream is dropped, then at every point every query of a live stream waits
for its result or had its handler called, once. -/
theorem accounted_of_harmless {w : World} {first : Poll} {events : List Event}
    {k : Worker}
    (hharmless : Run.Throughout (Worker.step w) (Worker.Harmless w)
      (Worker.start first) events)
    (h : Run.exec (Worker.step w) (Worker.start first) events = .ok k) :
    k.Accounted w := by
  have hinv : k.Aligned w ∧ k.Tracked :=
    Run.invariant (I := fun k => k.Aligned w ∧ k.Tracked)
      (fun _ _ _ hk hharmless hstep =>
        ⟨hk.1.step hstep, hk.2.step hk.1 hharmless hstep⟩)
      ⟨Aligned.start first, Tracked.start first⟩ hharmless h
  exact hinv.1.accounted hinv.2

end Worker

theorem chattyRun_accounted :
    Run.Throughout (Worker.step .chatty) (Worker.Harmless .chatty)
        (Worker.start ⟨0, .reading 3⟩) chattyRun
      ∧ ∃ k, Run.exec (Worker.step .chatty) (Worker.start ⟨0, .reading 3⟩)
          chattyRun = .ok k
        ∧ k.calls.map HandlerCall.handler = [0, 1, 2] ∧ k.Accounted .chatty := by
  have hharmless : Run.Throughout (Worker.step .chatty)
      (Worker.Harmless .chatty) (Worker.start ⟨0, .reading 3⟩) chattyRun := by
    decide
  obtain ⟨k, hk, hcalls⟩ := Run.exists_of_map_exec (show (Run.exec
    (Worker.step .chatty) (Worker.start ⟨0, .reading 3⟩) chattyRun).map
      (fun k => k.calls.map HandlerCall.handler) = .ok [0, 1, 2] by decide)
  exact ⟨hharmless, k, hk, hcalls, Worker.accounted_of_harmless hharmless hk⟩

/-! ### An empty query -/

/-- A world in which every query is empty. -/
def World.empty : World := { World.chatty with
  status := fun _ => .emptyQuery
  submits := fun _ => [] }

/-- A stream submits an empty query, and its result is read. -/
def emptyQueryRun : List Event :=
  [.readable true 0 ⟨0, .ok true true⟩ ⟨0, .failed⟩, .openStream,
    .submit 0 (.query []), .writable [.done] ⟨0, .failed⟩ ⟨0, .failed⟩,
    .readable true 2 ⟨0, .failed⟩ ⟨0, .failed⟩]

/-- **The handler of an empty query is never called**: the query has left both
queues, its stream is alive, and nothing has been called. -/
theorem emptyQueryRun_not_accounted :
    ∃ k, Run.exec (Worker.step .empty) (Worker.start ⟨0, .reading 3⟩)
        emptyQueryRun = .ok k
      ∧ ¬ k.Accounted .empty := by
  obtain ⟨k, hk, hobserved⟩ := Run.exists_of_map_exec (show (Run.exec
    (Worker.step .empty) (Worker.start ⟨0, .reading 3⟩) emptyQueryRun).map
      (fun k => (k.submitted, decide (0 ∈ k.aliveStreams),
        k.calls.map HandlerCall.handler,
        k.session.queued.map Query.completionHandler,
        k.session.dispatched.map DispatchedQuery.completionHandler))
      = .ok ([0], true, [], [], []) by decide)
  simp only [Prod.mk.injEq, decide_eq_true_eq] at hobserved
  obtain ⟨hsubmitted, halive, hcalls, hqueued, hdispatched⟩ := hobserved
  refine ⟨k, hk, fun haccounted => ?_⟩
  have hquery := haccounted 0 0 (by rw [hsubmitted]; rfl) halive
  unfold Worker.Waits at hquery
  rw [hcalls, hqueued, hdispatched] at hquery
  rcases hquery with ⟨hcalled, -⟩ | ⟨-, hqueue | ⟨hsent, -⟩⟩
  · exact absurd hcalled (by decide)
  · exact List.not_mem_nil hqueue
  · exact List.not_mem_nil hsent

end Db
