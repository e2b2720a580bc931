import Harmony.DbPipeline

/-!
# The write watcher

A session sends only when the event loop reports that its socket can be
written, and the loop does so only while the write watcher is active. As long
as something is to be sent – a query in `queued_`, or bytes in the output
buffer of the client library – the watcher of a connected session must
therefore be active (`Db.Session.Wakes`).

It is started by the `send_*` functions, and stopped in two places too many.
While the connection is made, an answer `READING` stops it although queries may
be queued already, and nothing starts it again when the connection has been
made. And `write` stops it after its last batch without the flush it does
after every other batch.

`Db.Worker.Attended` says of an event, and of the state it comes in, that
neither happens. In a run of such events the watcher is active whenever it has
to be (`Db.Worker.wakes_of_attended`).
-/

namespace Db

/-- **The watcher is active whenever something is to be sent**, once the
session is connected. -/
def Session.Wakes (s : Session) : Prop :=
  s.connected = true → s.queued ≠ [] ∨ s.pq.unflushed = true → s.wev = true

/-- **An event leaves the watcher as it should**: the connection is not made
with queries in the queue and the watcher stopped, and no bytes are left over
when the last query is sent. -/
def Worker.Attended (w : World) (k : Worker) : Event → Prop
  | .submit _ _ => True
  | .openStream => True
  | .closeStream _ => True
  | .readable _ _ poll _ =>
    k.session.rev = true → k.session.readFn = .pollConnection →
      poll.answer = .ok true true → k.session.queued ≠ [] →
      k.session.wev = true
  | .writable flushes _ _ =>
    k.session.wev = true → k.session.writeFn = .io →
      (∀ q ∈ k.session.queued, q.accepted w = true) →
      k.session.queued.length ≤ 20 * flushesDone flushes →
      leftover w false k.session.queued = false

instance Worker.decidableAttended (w : World) (k : Worker) :
    ∀ e, Decidable (k.Attended w e)
  | .submit _ _ => isTrue trivial
  | .openStream => isTrue trivial
  | .closeStream _ => isTrue trivial
  | .readable _ _ _ _ => inferInstanceAs (Decidable (_ → _ → _ → _ → _))
  | .writable _ _ _ =>
    inferInstanceAs (Decidable (_ → _ → (∀ q ∈ _, _) → _ → _))

/-! ## The invariant -/

/-- **The session is watched.** As long as it polls it is not connected, and
has sent nothing. -/
structure Session.Watched (s : Session) : Prop where
  sameFn : s.readFn = s.writeFn
  polls : s.writeFn = .pollConnection →
    s.connected = false ∧ s.pq.unflushed = false
  wakes : s.Wakes

namespace Session.Watched

/-- What changes neither the phase of the session nor what is to be sent. -/
theorem congr {s s' : Session} (h : s.Watched) (hphase : s'.phase = s.phase)
    (hqueued : s'.queued = s.queued)
    (hunflushed : s'.pq.unflushed = s.pq.unflushed) (hwev : s'.wev = s.wev) :
    s'.Watched := by
  have hconnected : s'.connected = s.connected := congrArg Prod.fst hphase
  have hread : s'.readFn = s.readFn := congrArg (Prod.fst ∘ Prod.snd) hphase
  have hwrite : s'.writeFn = s.writeFn := congrArg (Prod.snd ∘ Prod.snd) hphase
  refine ⟨?_, ?_, ?_⟩
  · rw [hread, hwrite]
    exact h.sameFn
  · rw [hwrite, hconnected, hunflushed]
    exact h.polls
  · unfold Session.Wakes
    rw [hconnected, hqueued, hunflushed, hwev]
    exact h.wakes

/-- Submitting starts the watcher. -/
theorem submits {k k' : Worker} {new : List Query} (h : k.session.Watched)
    (hs : k.Submits k' new) : k'.session.Watched := by
  cases new with
  | nil =>
    refine h.congr hs.phase (hs.queued.trans (List.append_nil _))
      (congrArg LibPq.unflushed hs.pq) ?_
    rw [hs.wev]
    exact Bool.or_false _
  | cons q new =>
    have hconnected : k'.session.connected = k.session.connected :=
      congrArg Prod.fst hs.phase
    have hread : k'.session.readFn = k.session.readFn :=
      congrArg (Prod.fst ∘ Prod.snd) hs.phase
    have hwrite : k'.session.writeFn = k.session.writeFn :=
      congrArg (Prod.snd ∘ Prod.snd) hs.phase
    refine ⟨?_, ?_, fun _ _ => ?_⟩
    · rw [hread, hwrite]
      exact h.sameFn
    · rw [hwrite, hconnected, hs.pq]
      exact h.polls
    · rw [hs.wev]
      exact Bool.or_true _

/-- **A poll**: when it makes the connection, the watcher must be active if
queries are queued. -/
theorem pollAnswer {s : Session} (h : s.Watched)
    (hpolls : s.writeFn = .pollConnection) (answer : PollAnswer)
    (hattended : answer = .ok true true → s.queued ≠ [] → s.wev = true) :
    (s.pollAnswer answer).1.Watched := by
  obtain ⟨hconnected, hunflushed⟩ := h.polls hpolls
  -- as long as the phase stays what it is
  have hstay : ∀ s' : Session, s'.phase = s.phase →
      s'.pq.unflushed = s.pq.unflushed → s'.Watched := by
    intro s' hphase hpq
    have hconnected' : s'.connected = false :=
      (congrArg Prod.fst hphase).trans hconnected
    have hread : s'.readFn = s.readFn := congrArg (Prod.fst ∘ Prod.snd) hphase
    have hwrite : s'.writeFn = s.writeFn := congrArg (Prod.snd ∘ Prod.snd) hphase
    refine ⟨?_, fun _ => ⟨hconnected', hpq.trans hunflushed⟩, fun hyes => ?_⟩
    · rw [hread, hwrite]
      exact h.sameFn
    · exact absurd (hconnected'.symm.trans hyes) (by decide)
  cases answer with
  | reading fd =>
    refine hstay _ ?_ (congrArg LibPq.unflushed (s.pollAnswer_polls _).pq)
    unfold Session.pollAnswer
    dsimp only
    split_ifs <;> rfl
  | writing fd =>
    refine hstay _ ?_ (congrArg LibPq.unflushed (s.pollAnswer_polls _).pq)
    unfold Session.pollAnswer
    dsimp only
    split_ifs <;> rfl
  | failed => exact h
  | ok nonblocking pipeline =>
    unfold Session.pollAnswer Session.connectionMade
    dsimp only
    split_ifs with hnonblocking hpipeline
    · exact ⟨rfl, fun hfn => SessionFn.noConfusion hfn,
        fun hyes => absurd (hconnected.symm.trans hyes) (by decide)⟩
    · exact ⟨rfl, fun hfn => SessionFn.noConfusion hfn,
        fun hyes => absurd (hconnected.symm.trans hyes) (by decide)⟩
    · refine ⟨rfl, fun hfn => SessionFn.noConfusion hfn, fun _ hsomething => ?_⟩
      rw [eq_true_of_ne_false hnonblocking, eq_true_of_ne_false hpipeline]
        at hattended
      refine hattended rfl (hsomething.resolve_right fun hyes => ?_)
      exact absurd (hunflushed.symm.trans hyes) (by decide)

/-- A new session. -/
theorem create (first : Poll) : (Session.create first).Watched := by
  rw [Session.create, Session.pollConnection_eq]
  refine pollAnswer ⟨rfl, fun _ => ⟨rfl, rfl⟩, fun hyes => ?_⟩ rfl _
    fun _ hqueued => absurd rfl hqueued
  exact absurd hyes (by decide)

/-- **Writing**: it stops the watcher once everything is sent, and nothing may
be left over then. -/
theorem write {w : World} {answers : List FlushAnswer} {s s' : Session}
    {moved : List Query} (h : s.Watched) (hwev : s.wev = true)
    (hio : s.writeFn = .io)
    (hattended : (∀ q ∈ s.queued, q.accepted w = true) →
      s.queued.length ≤ 20 * flushesDone answers →
      leftover w false s.queued = false)
    (hwrites : Session.Writes w answers s s' true moved) : s'.Watched := by
  have hread : s'.readFn = s.readFn :=
    congrArg (Prod.fst ∘ Prod.snd) hwrites.phase
  have hwrite : s'.writeFn = s.writeFn :=
    congrArg (Prod.snd ∘ Prod.snd) hwrites.phase
  refine ⟨?_, ?_, fun _ hsomething => ?_⟩
  · rw [hread, hwrite]
    exact h.sameFn
  · rw [hwrite, hio]
    exact fun hfn => SessionFn.noConfusion hfn
  · rcases hwrites.wev rfl with hsame | ⟨hqueued, hlength, haccepted, hunflushed⟩
    · exact hsame.trans hwev
    · rw [hattended haccepted hlength] at hunflushed
      rcases hsomething with hne | hyes
      · exact absurd hqueued hne
      · exact absurd (hunflushed.symm.trans hyes) (by decide)

end Session.Watched

namespace Worker

open Session.Watched

/-- Another session in place of one that has failed. -/
theorem watched_orRestart {r : Worker × Bool}
    (h : r.2 = true → r.1.session.Watched) (first : Poll) :
    (orRestart first r).session.Watched := by
  unfold orRestart
  split_ifs with hok
  · exact h hok
  · exact create first

/-- **Reading** only ever starts the watcher. -/
theorem watched_read {w : World} {k : Worker} {consumed : Bool} {ready : ℕ}
    {r : Worker × Bool} (h : k.session.Watched) (haligned : k.Aligned w)
    (hread : k.read w consumed ready = .ok r) : r.1.session.Watched := by
  unfold Worker.read at hread
  split_ifs at hread
  · cases hread
    exact h
  · obtain ⟨r', hr', -, hQ⟩ := haligned.readAll_rule
      (I := fun _ k => k.session.Watched) (Q := fun r => r.1.session.Watched)
      (fun n k hk _ => hk)
      (fun n k rest _ hk _ => hk.congr rfl rfl rfl rfl)
      (fun n k d ds k' new _ hk _ _ hs _ => by
        have hanswered : (k.answered w d).session.Watched :=
          hk.congr rfl rfl rfl rfl
        have hk' : k'.session.Watched := hanswered.submits hs
        split_ifs
        · exact hk'
        · exact hk')
      ready h
    rw [hr'] at hread
    cases hread
    exact hQ

/-- **An event that leaves the watcher as it should.** -/
theorem watched_step {w : World} {k k' : Worker} {e : Event}
    (h : k.session.Watched) (haligned : k.Aligned w)
    (hattended : k.Attended w e) (hstep : k.step w e = .ok k') :
    k'.session.Watched := by
  cases e with
  | submit stream call =>
    cases hstep
    obtain ⟨new, hsubmits, -⟩ := k.submit_submits stream call
    exact h.submits hsubmits
  | openStream =>
    cases hstep
    exact h
  | closeStream stream =>
    cases hstep
    exact h
  | readable consumed ready poll restart =>
    rcases step_readable hstep with rfl | ⟨hrev, hfn, rfl⟩
      | ⟨-, -, r, hread, rfl⟩
    · exact h
    · exact watched_orRestart (r := k.withSession _)
        (fun _ => h.pollAnswer (h.sameFn.symm.trans hfn) poll.answer
          (hattended hrev hfn)) restart
    · exact watched_orRestart (fun _ => watched_read h haligned hread) restart
  | writable flushes poll restart =>
    rcases step_writable hstep with rfl | ⟨hwev, hfn, rfl⟩
      | ⟨hwev, hfn, r, hwrite, rfl⟩
    · exact h
    · exact watched_orRestart (r := k.withSession _)
        (fun _ => h.pollAnswer hfn poll.answer fun _ _ => hwev) restart
    · obtain ⟨s', ok⟩ := r
      obtain ⟨moved, hwrites⟩ := Session.write_sends hwrite
      refine watched_orRestart (r := k.withSession _) (fun hok => ?_) restart
      have hok' : ok = true := hok
      rw [hok'] at hwrites
      exact h.write hwev hfn (hattended hwev hfn) hwrites

/-- **The write watcher is active whenever it has to be**, at every point of a
run whose events leave it as they should. -/
theorem wakes_of_attended {w : World} {first : Poll} {events : List Event}
    {k : Worker}
    (hattended : Run.Throughout (Worker.step w) (Worker.Attended w)
      (Worker.start first) events)
    (h : Run.exec (Worker.step w) (Worker.start first) events = .ok k) :
    k.session.Wakes := by
  have hinv : k.Aligned w ∧ k.session.Watched :=
    Run.invariant (I := fun k => k.Aligned w ∧ k.session.Watched)
      (fun _ _ _ hk hattended hstep =>
        ⟨hk.1.step hstep, watched_step hk.2 hk.1 hattended hstep⟩)
      ⟨Aligned.start first, create first⟩ hattended h
  exact hinv.2.wakes

end Worker

theorem chattyRun_wakes :
    Run.Throughout (Worker.step .chatty) (Worker.Attended .chatty)
        (Worker.start ⟨0, .reading 3⟩) chattyRun
      ∧ ∃ k, Run.exec (Worker.step .chatty) (Worker.start ⟨0, .reading 3⟩)
          chattyRun = .ok k
        ∧ k.calls.map HandlerCall.handler = [0, 1, 2] ∧ k.session.Wakes := by
  have hattended : Run.Throughout (Worker.step .chatty)
      (Worker.Attended .chatty) (Worker.start ⟨0, .reading 3⟩) chattyRun := by
    decide
  obtain ⟨k, hk, hcalls⟩ := Run.exists_of_map_exec (show (Run.exec
    (Worker.step .chatty) (Worker.start ⟨0, .reading 3⟩) chattyRun).map
      (fun k => k.calls.map HandlerCall.handler) = .ok [0, 1, 2] by decide)
  exact ⟨hattended, k, hk, hcalls, Worker.wakes_of_attended hattended hk⟩

/-! ### A query that is never sent -/

/-- A stream submits a query while the connection is being made; the next
answer stops the watcher, and then the connection is made. -/
def earlyQueryRun : List Event :=
  [.openStream, .submit 0 (.query []),
    .writable [] ⟨0, .reading 3⟩ ⟨0, .failed⟩,
    .readable true 0 ⟨0, .ok true true⟩ ⟨0, .failed⟩]

/-- **A query that was submitted early is never sent**: the session is
connected, the query is queued, and the watcher is stopped. -/
theorem earlyQueryRun_not_wakes :
    ∃ k, Run.exec (Worker.step .chatty) (Worker.start ⟨0, .reading 3⟩)
        earlyQueryRun = .ok k
      ∧ ¬ k.session.Wakes := by
  obtain ⟨k, hk, hobserved⟩ := Run.exists_of_map_exec (show (Run.exec
    (Worker.step .chatty) (Worker.start ⟨0, .reading 3⟩) earlyQueryRun).map
      (fun k => (k.session.connected, k.session.queued.isEmpty,
        k.session.wev)) = .ok (true, false, false) by decide)
  simp only [Prod.mk.injEq] at hobserved
  obtain ⟨hconnected, hqueued, hwev⟩ := hobserved
  refine ⟨k, hk, fun hwakes => ?_⟩
  have hactive : k.session.wev = true :=
    hwakes hconnected (Or.inl fun hnil => by
      rw [hnil] at hqueued
      exact absurd hqueued (by decide))
  exact absurd (hwev.symm.trans hactive) (by decide)

end Db
