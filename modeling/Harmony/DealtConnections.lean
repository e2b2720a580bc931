import Harmony.AddConnection
import Harmony.RoundRobin

/-!
# The order in which connections reach their workers

The main thread gives every connection to the next worker, and starts over
behind the last. Worker `i` of `n` is therefore handed the connections
`i`, `i + n`, `i + 2 n`, … in the order in which they were accepted, and takes
them in that order (`dealt_in_turn`).

That it takes them at all hangs on the call. A worker that finds its queue
empty goes back to its event loop, while the main thread may just have put
something into it; but then the call is still to come. So wherever a
descriptor waits, the worker has been called, or is at it, or the main thread
is about to call it; and a worker that is then let run alone takes up
everything that was handed to it, whether or not there are SSL sessions to be
had (`worker_catches_up`).
-/

namespace ConnectionServer

/-- The connections that have been put into a queue. -/
def handed (s : ConnectionServer) : List ℕ :=
  s.accepted.take (s.accepted.length - s.main.held.length)

/-- Whether the main thread is about to call the worker `i`. -/
def AboutToCall (s : ConnectionServer) (i : ℕ) : Prop :=
  s.main = .sending ∧ s.nextWorker = i

/-- **The invariant**: `given` connections were put into queues, and the calls
of `turn` of them were made. -/
structure Deals (s : ConnectionServer) (given : List ℕ) (turn : ℕ) : Prop where
  accepted : s.accepted = given ++ s.main.held
  length_given : given.length = turn + if s.main = .sending then 1 else 0
  next : s.nextWorker = turn % s.numThreads
  queued : ∀ i (k : WorkerThread), s.workers[i]? = some k →
    k.queuedFds.given = dealt s.numThreads i given
  awake : ∀ i (k : WorkerThread), s.workers[i]? = some k →
    k.queuedFds.Awake (s.AboutToCall i)

theorem Deals.handed_eq {s : ConnectionServer} {given : List ℕ} {turn : ℕ}
    (h : s.Deals given turn) : s.handed = given := by
  rw [handed, h.accepted, List.length_append, Nat.add_sub_cancel,
    List.take_left]

theorem workers_start {n i : ℕ} {k : WorkerThread}
    (hk : (start n).workers[i]? = some k) : k = ⟨.empty, []⟩ :=
  List.eq_of_mem_replicate (List.mem_of_getElem? hk)

theorem deals_start (n : ℕ) : (start n).Deals [] 0 where
  accepted := rfl
  length_given := rfl
  next := (Nat.zero_mod n).symm
  queued i k hk := by
    rw [workers_start hk]
    rfl
  awake i k hk := by
    rw [workers_start hk]
    exact SignalQueue.awake_empty _

variable {s : ConnectionServer} {given : List ℕ} {turn : ℕ}

/-- A step of a worker that passes over nothing and stops only at an empty
queue. -/
theorem Deals.worker {s' : ConnectionServer} {i : ℕ} {k : WorkerThread}
    (h : s.Deals given turn) (k' : WorkerThread) (hk : s.workers[i]? = some k)
    (hs' : s'.workers = (s.setWorker i k').workers)
    (hmain : s'.main = s.main) (hnext : s'.nextWorker = s.nextWorker)
    (hnum : s'.numThreads = s.numThreads) (haccepted : s'.accepted = s.accepted)
    (hgiven : k'.queuedFds.given = k.queuedFds.given)
    (hawake : k.queuedFds.Awake (s.AboutToCall i) →
      k'.queuedFds.Awake (s.AboutToCall i)) : s'.Deals given turn where
  accepted := by rw [haccepted, hmain, h.accepted]
  length_given := by rw [hmain, h.length_given]
  next := by rw [hnext, hnum, h.next]
  queued j kj hj := by
    rw [hs', getElem?_setWorker hk] at hj
    rw [hnum]
    split_ifs at hj with hji
    · cases hj
      rw [hgiven, hji]
      exact h.queued i k hk
    · exact h.queued j kj hj
  awake j kj hj := by
    rw [hs', getElem?_setWorker hk] at hj
    unfold AboutToCall
    rw [hmain, hnext]
    split_ifs at hj with hji
    · cases hj
      rw [hji]
      exact hawake (h.awake i k hk)
    · exact h.awake j kj hj

/-- A step of the main thread outside the hand-over. -/
theorem Deals.accepting {s' : ConnectionServer} (h : s.Deals given turn)
    (hworkers : s'.workers = s.workers) (hnext : s'.nextWorker = s.nextWorker)
    (hnum : s'.numThreads = s.numThreads) (hmain : s.main ≠ .sending)
    (hmain' : s'.main ≠ .sending)
    (haccepted : s'.accepted = given ++ s'.main.held) :
    s'.Deals given turn where
  accepted := haccepted
  length_given := by rw [if_neg hmain', h.length_given, if_neg hmain]
  next := by rw [hnext, hnum, h.next]
  queued i k hk := by
    rw [hnum]
    exact h.queued i k (hworkers ▸ hk)
  awake i k hk hwaiting :=
    (h.awake i k (hworkers ▸ hk) hwaiting).imp_right
      (.imp_right fun hcall => absurd hcall.1 hmain)

/-- **Every step keeps the invariant.** -/
theorem Deals.step {s' : ConnectionServer} {e : ThreadStep}
    (h : s.Deals given turn) (hstep : s.step e = .ok s') :
    ∃ given' turn', s'.Deals given' turn' := by
  cases takes_of_step hstep with
  | readable hmain =>
    refine ⟨given, turn, h.accepting rfl rfl rfl (by rw [hmain]; nofun) nofun ?_⟩
    rw [h.accepted, hmain]
    rfl
  | accept fd hmain hnew =>
    refine ⟨given, turn, h.accepting rfl rfl rfl (by rw [hmain]; nofun) nofun ?_⟩
    show s.accepted ++ [fd] = given ++ [fd]
    rw [h.accepted, hmain]
    exact congrArg (· ++ [fd]) (List.append_nil given)
  | acceptFails hmain =>
    refine ⟨given, turn, h.accepting rfl rfl rfl (by rw [hmain]; nofun) nofun ?_⟩
    rw [h.accepted, hmain]
    rfl
  | emplace fd k hmain hk =>
    have hlength : given.length = turn := by
      rw [h.length_given, hmain]
      rfl
    refine ⟨given ++ [fd], turn, ?_, ?_, h.next, fun j kj hj => ?_,
      fun j kj hj => ?_⟩
    · show s.accepted = (given ++ [fd]) ++ []
      rw [h.accepted, hmain, List.append_nil]
      rfl
    · rw [List.length_append, hlength]
      rfl
    · rw [show _ = _ from getElem?_setWorker hk _ j] at hj
      show _ = dealt s.numThreads j (given ++ [fd])
      rw [dealt_append_singleton, hlength, ← h.next]
      split_ifs at hj with hjn
      · cases hj
        rw [SignalQueue.given_enqueue, h.queued s.nextWorker k hk,
          if_pos hjn.symm, hjn]
      · rw [h.queued j kj hj, if_neg (Ne.symm hjn), List.append_nil]
    · rw [show _ = _ from getElem?_setWorker hk _ j] at hj
      split_ifs at hj with hjn
      · exact fun _ => .inr (.inr ⟨rfl, hjn.symm⟩)
      · refine fun hwaiting => (h.awake j kj hj hwaiting).imp_right
          (.imp_right fun hcall => ?_)
        rw [AboutToCall, hmain] at hcall
        exact absurd hcall.1 nofun
  | asyncSend k hmain hk =>
    have hlength : given.length = turn + 1 := by rw [h.length_given, if_pos hmain]
    refine ⟨given, turn + 1, ?_, hlength, ?_, fun j kj hj => ?_,
      fun j kj hj => ?_⟩
    · show s.accepted = given ++ []
      rw [h.accepted, hmain]
      rfl
    · show (s.nextWorker + 1) % s.numThreads = (turn + 1) % s.numThreads
      rw [h.next, Nat.mod_add_mod]
    · rw [show _ = _ from getElem?_setWorker hk _ j] at hj
      show _ = dealt s.numThreads j given
      split_ifs at hj with hjn
      · cases hj
        rw [SignalQueue.given_signal, hjn]
        exact h.queued s.nextWorker k hk
      · exact h.queued j kj hj
    · rw [show _ = _ from getElem?_setWorker hk _ j] at hj
      split_ifs at hj with hjn
      · cases hj
        exact k.queuedFds.awake_signal _
      · exact fun hwaiting => (h.awake j kj hj hwaiting).imp_right
          (.imp_right fun hcall => absurd hcall.2.symm hjn)
  | wake i k hk =>
    exact ⟨given, turn, h.worker { k with queuedFds := k.queuedFds.wake } hk rfl
      rfl rfl rfl rfl rfl fun _ => k.queuedFds.awake_wake _⟩
  | done i ssl k hk hnone =>
    exact ⟨given, turn, h.worker { k with queuedFds := k.queuedFds.tryDequeue.2 }
      hk rfl rfl rfl rfl rfl k.queuedFds.given_tryDequeue (·.tryDequeue)⟩
  | session i k fd rest hk hwaiting =>
    exact ⟨given, turn, h.worker ⟨k.queuedFds.tryDequeue.2, fd :: k.sessions⟩
      hk rfl rfl rfl rfl rfl k.queuedFds.given_tryDequeue (·.tryDequeue)⟩
  | reject i k fd rest hk hwaiting hopen =>
    exact ⟨given, turn, h.worker { k with queuedFds := k.queuedFds.tryDequeue.2 }
      hk rfl rfl rfl rfl rfl k.queuedFds.given_tryDequeue (·.tryDequeue)⟩
  | removeSession i k fd hk hfd hopen =>
    exact ⟨given, turn, h.worker { k with sessions := k.sessions.erase fd }
      hk rfl rfl rfl rfl rfl rfl id⟩

/-- What holds in every run. -/
structure Dealing (n : ℕ) (s : ConnectionServer) : Prop where
  inv : s.Inv
  num : s.numThreads = n
  deals : ∃ given turn, s.Deals given turn

theorem dealing_of_run {n : ℕ} (hn : 0 < n) {es : List ThreadStep}
    {s : ConnectionServer} (h : Run.exec ConnectionServer.step (start n) es = .ok s) :
    s.Dealing n := by
  refine Run.invariant_of_step (fun s e s' hs hstep => ⟨hs.inv.step hstep, ?_, ?_⟩)
    ⟨inv_start hn, rfl, [], 0, deals_start n⟩ h
  · rw [← hs.num]
    cases takes_of_step hstep <;> rfl
  · obtain ⟨given, turn, hdeals⟩ := hs.deals
    exact hdeals.step hstep

/-- **The connections reach the workers in turn and in order**, whatever the
order of the steps: what worker `i` of `n` has taken out of its queue, and then
what is in it, are the connections `i`, `i + n`, `i + 2 n`, … of those handed
over so far. Where some are waiting, the worker has been called, or is at it,
or is about to be called; so when all is quiet it has taken everything that was
accepted for it. -/
theorem dealt_in_turn {n : ℕ} (hn : 0 < n) {es : List ThreadStep}
    {s : ConnectionServer} (h : Run.exec step (start n) es = .ok s) {i : ℕ}
    (hi : i < n) :
    ∃ k, s.workers[i]? = some k
      ∧ (∀ j, (k.queuedFds.taken ++ k.queuedFds.waiting)[j]?
          = s.handed[i + j * n]?)
      ∧ k.queuedFds.Awake (s.AboutToCall i)
      ∧ (s.main = .polling → k.queuedFds.signalled = false →
          k.queuedFds.draining = false →
          ∀ j, k.queuedFds.taken[j]? = s.accepted[i + j * n]?) := by
  obtain ⟨hinv, hnum, given, turn, hdeals⟩ := dealing_of_run hn h
  obtain ⟨k, hk⟩ : ∃ k, s.workers[i]? = some k :=
    ⟨_, List.getElem?_eq_getElem (by rw [hinv.count, hnum]; exact hi)⟩
  have hall : ∀ j, (k.queuedFds.taken ++ k.queuedFds.waiting)[j]?
      = s.handed[i + j * n]? := fun j => by
    rw [hdeals.handed_eq, ← getElem?_dealt hi, ← hnum, ← hdeals.queued i k hk]
    rfl
  refine ⟨k, hk, hall, hdeals.awake i k hk, fun hmain hsignal hdrain j => ?_⟩
  have hnone : k.queuedFds.waiting = [] := by
    by_contra hwaiting
    rcases hdeals.awake i k hk hwaiting with hs | hd | hcall
    · rw [hsignal] at hs
      cases hs
    · rw [hdrain] at hd
      cases hd
    · rw [AboutToCall, hmain] at hcall
      exact absurd hcall.1 nofun
  have hj := hall j
  rw [hnone, List.append_nil] at hj
  rw [hj, handed, hmain]
  exact congrArg (·[i + j * n]?) List.take_length

/-- The server after `threeConnections`. -/
def afterThree : ConnectionServer where
  numThreads := 2
  nextWorker := 1
  main := .polling
  workers := [⟨⟨[], true, false, [7, 9]⟩, []⟩, ⟨⟨[8], true, false, []⟩, []⟩]
  opened := [8]
  accepted := [7, 8, 9]

theorem dealt_in_turn_threeConnections :
    ∃ k, afterThree.workers[0]? = some k ∧ k.queuedFds.taken = [7, 9]
      ∧ ∀ j, (k.queuedFds.taken ++ k.queuedFds.waiting)[j]?
          = afterThree.handed[0 + j * 2]? := by
  have hrun : Run.exec step (start 2) threeConnections = .ok afterThree := rfl
  obtain ⟨k, hk, hall, -⟩ := dealt_in_turn (n := 2) (by decide) hrun
    (i := 0) (by decide)
  refine ⟨k, hk, ?_, hall⟩
  cases hk
  rfl

/-! ## A worker on its own -/

/-- Passes of the loop of `async_acceptcb`. -/
def dequeues (i : ℕ) (ssl : ℕ → Bool) (m : ℕ) : List ThreadStep :=
  (List.range m).map fun j => .tryDequeue i (ssl j)

/-- What a worker does if it is let run: it wakes up if it has been called, and
takes what there is. -/
def ownSteps (i : ℕ) (k : WorkerThread) (ssl : ℕ → Bool) : List ThreadStep :=
  if k.queuedFds.draining then
    dequeues i ssl (k.queuedFds.waiting.length + 1)
  else if k.queuedFds.signalled then
    .wake i :: dequeues i ssl (k.queuedFds.waiting.length + 1)
  else []

theorem dequeues_succ (i : ℕ) (ssl : ℕ → Bool) (m : ℕ) :
    dequeues i ssl (m + 1)
      = .tryDequeue i (ssl 0) :: dequeues i (fun j => ssl (j + 1)) m := by
  unfold dequeues
  rw [List.range_succ_eq_map, List.map_cons, List.map_map]
  rfl

/-- **A pass of the loop can always be taken.** -/
theorem Inv.tryDequeue {i : ℕ} {k : WorkerThread} (h : s.Inv)
    (hk : s.workers[i]? = some k) (hdraining : k.queuedFds.draining = true)
    (ssl : Bool) :
    ∃ s' k', s.step (.tryDequeue i ssl) = .ok s' ∧ s'.workers[i]? = some k'
      ∧ k'.queuedFds = k.queuedFds.tryDequeue.2 := by
  have hset : ∀ k', (s.setWorker i k').workers[i]? = some k' := fun k' => by
    rw [getElem?_setWorker hk, if_pos rfl]
  have hstep : s.step (.tryDequeue i ssl)
      = s.workerStep i k (.tryDequeue i ssl) := by
    rw [ConnectionServer.step]
    cases s.main <;> simp only [hk]
  rw [hstep, workerStep, if_pos hdraining]
  cases hwaiting : k.queuedFds.waiting with
  | nil =>
    have hq : k.queuedFds.tryDequeue = (none, k.queuedFds.tryDequeue.2) := by
      rw [SignalQueue.tryDequeue, hwaiting]
    rw [hq]
    exact ⟨_, _, rfl, hset _, rfl⟩
  | cons fd rest =>
    have hq : k.queuedFds.tryDequeue = (some fd, k.queuedFds.tryDequeue.2) := by
      rw [SignalQueue.tryDequeue, hwaiting]
    have hfd : fd ∈ s.held (.queue i) := by
      rw [held_queue hk, hwaiting]
      exact List.mem_cons_self
    rw [hq]
    cases ssl with
    | true => exact ⟨_, _, rfl, hset _, rfl⟩
    | false =>
      refine ⟨_, _, close_of_mem ?_, hset _, rfl⟩
      exact h.mem_opened hfd

/-- The loop runs to its end. -/
theorem Inv.dequeues {i : ℕ} {k : WorkerThread} (h : s.Inv)
    (hk : s.workers[i]? = some k) (hdraining : k.queuedFds.draining = true)
    (ssl : ℕ → Bool) :
    ∃ s' k', Run.exec ConnectionServer.step s
        (ConnectionServer.dequeues i ssl (k.queuedFds.waiting.length + 1))
          = .ok s'
      ∧ s'.workers[i]? = some k'
      ∧ k'.queuedFds = k.queuedFds.takeAll (k.queuedFds.waiting.length + 1) := by
  induction hwaiting : k.queuedFds.waiting generalizing s k ssl with
  | nil =>
    obtain ⟨s', k', hs', hk', hq⟩ := h.tryDequeue hk hdraining (ssl 0)
    rw [List.length_nil, dequeues_succ, Run.exec_cons_of_ok hs']
    exact ⟨s', k', rfl, hk', hq⟩
  | cons fd rest ih =>
    obtain ⟨s', k', hs', hk', hq⟩ := h.tryDequeue hk hdraining (ssl 0)
    have hdraining' : k'.queuedFds.draining = true := by
      rw [hq, SignalQueue.tryDequeue, hwaiting]
      exact hdraining
    obtain ⟨s'', k'', hs'', hk'', hq''⟩ := ih (h.step hs') hk' hdraining'
      (fun j => ssl (j + 1)) (by rw [hq, waiting_tryDequeue hwaiting])
    rw [List.length_cons, dequeues_succ, Run.exec_cons_of_ok hs']
    refine ⟨s'', k'', hs'', hk'', ?_⟩
    rw [hq'', hq]
    rfl

/-- **A worker that is let run catches up.** From wherever a run has come, if
the main thread is not just about to call the worker, the worker's own steps –
whether or not there are SSL sessions to be had – can all be taken, and then
its queue is empty, it is back in its event loop, and it has taken everything
that was handed to it. -/
theorem worker_catches_up {n : ℕ} (hn : 0 < n) {es : List ThreadStep}
    {s : ConnectionServer} (h : Run.exec step (start n) es = .ok s) {i : ℕ}
    {k : WorkerThread} (hk : s.workers[i]? = some k)
    (hcall : ¬ s.AboutToCall i) (ssl : ℕ → Bool) :
    ∃ s' k', Run.exec step s (ownSteps i k ssl) = .ok s'
      ∧ s'.workers[i]? = some k' ∧ k'.queuedFds.waiting = []
      ∧ k'.queuedFds.draining = false
      ∧ ∀ j, k'.queuedFds.taken[j]? = s.handed[i + j * n]? := by
  obtain ⟨hinv, hnum, given, turn, hdeals⟩ := dealing_of_run hn h
  have hi : i < n := by
    obtain ⟨hlt, -⟩ := List.getElem?_eq_some_iff.mp hk
    rwa [hinv.count, hnum] at hlt
  have hgiven : ∀ j, k.queuedFds.given[j]? = s.handed[i + j * n]? := fun j => by
    rw [hdeals.handed_eq, ← getElem?_dealt hi, ← hnum, ← hdeals.queued i k hk]
  unfold ownSteps
  split_ifs with hdraining hsignalled
  · obtain ⟨s', k', hs', hk', hq⟩ := hinv.dequeues hk hdraining ssl
    obtain ⟨htaken, hwaiting, hdone⟩ := k.queuedFds.takeAll_spec
    rw [← hq] at htaken hwaiting hdone
    exact ⟨s', k', hs', hk', hwaiting, hdone, fun j => by rw [htaken, hgiven]⟩
  · have hwake : s.step (.wake i)
        = .ok (s.setWorker i { k with queuedFds := k.queuedFds.wake }) := by
      rw [step]
      cases s.main <;> simp [hk, workerStep, hsignalled, hdraining]
    have hset : (s.setWorker i
        { k with queuedFds := k.queuedFds.wake }).workers[i]?
          = some { k with queuedFds := k.queuedFds.wake } := by
      rw [getElem?_setWorker hk, if_pos rfl]
    obtain ⟨s', k', hs', hk', hq⟩ := (hinv.step hwake).dequeues hset rfl ssl
    obtain ⟨htaken, hwaiting, hdone⟩ := k.queuedFds.wake.takeAll_spec
    rw [SignalQueue.given_wake] at htaken
    rw [← hq] at htaken hwaiting hdone
    rw [Run.exec_cons_of_ok hwake]
    exact ⟨s', k', hs', hk', hwaiting, hdone, fun j => by rw [htaken, hgiven]⟩
  · have hnone : k.queuedFds.waiting = [] := by
      by_contra hwaiting
      rcases hdeals.awake i k hk hwaiting with hs | hd | hc
      · exact hsignalled hs
      · exact hdraining hd
      · exact hcall hc
    refine ⟨s, k, rfl, hk, hnone, (Bool.not_eq_true _).mp hdraining, fun j => ?_⟩
    rw [← hgiven, SignalQueue.given, hnone, List.append_nil]

theorem worker_catches_up_threeConnections :
    ∃ s' k', Run.exec step afterThree
        (ownSteps 1 ⟨⟨[8], true, false, []⟩, []⟩ fun _ => true) = .ok s'
      ∧ s'.workers[1]? = some k' ∧ k'.queuedFds.waiting = []
      ∧ ∀ j, k'.queuedFds.taken[j]? = afterThree.handed[1 + j * 2]? := by
  have hrun : Run.exec step (start 2) threeConnections = .ok afterThree := rfl
  have hcall : ¬ afterThree.AboutToCall 1 := fun h => nomatch h.1
  obtain ⟨s', k', hs', hk', hwaiting, -, htaken⟩ := worker_catches_up (n := 2)
    (by decide) hrun (i := 1) rfl hcall fun _ => true
  exact ⟨s', k', hs', hk', hwaiting, htaken⟩

end ConnectionServer
