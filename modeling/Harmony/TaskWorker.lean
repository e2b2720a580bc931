import Harmony.AwaitableTask

/-!
# Coroutine handlers of a worker

A worker runs any number of handlers at a time, each for a stream. A handler
that is a coroutine starts when its request is dispatched, waits for results
of the database, and is destroyed with its stream, wherever it stands
(`Task`). All queries go through one session, whose results come in the order
of the queries; each result goes to the coroutine that asked, unless the stream
is gone by then (`handle_result`). Runs are meant in which every result that is
read is handed on like this. That of an empty query is not, `read` clears it
and its coroutine waits on, and `restart_db_session` gives up the queries that
are out; neither is an event here.

Frames of all handlers lie mixed up on one heap, and places of frames that were
destroyed are used again, so that a handle in the queue may well be that of a
frame of another handler. `TaskWorker.refines_direct` says that none of this can
be noticed: in every such run, whichever `Coroutine` each handler is and
whenever the streams close, the handlers do exactly what they would do as
programs in direct style, and nothing that is undefined ever happens.
`TaskWorker.frames_of_run` says that nothing is left behind.
-/

variable {Q V A R S P : Type}

/-- **A worker**, as far as its coroutine handlers go. -/
structure TaskWorker (Q V A R S : Type) where
  world : CoroWorld Q V A R S
  /-- The frames of the handlers of the streams that are there, by their
  serials. -/
  roots : ℕ → Option ℕ
  /-- The next serial. -/
  next : ℕ

/-- Why an event does not happen, or what goes wrong. -/
inductive TaskFault where
  | impossible
  | coro (f : CoroFault)
  deriving DecidableEq, Repr

/-- What can be seen of handlers: what they work on, their queries, and how far
they are. -/
structure Seen (Q V S : Type) where
  shared : S
  queue : List (ℕ × Q)
  progress : ℕ → Option (Progress V)

/-- What can be seen of programs in direct style. -/
def Direct.seen (d : Direct Q V A R S) : Seen Q V S where
  shared := d.shared
  queue := d.queue
  progress i := (d.programs i).map Standing.progress

/-- How far a coroutine is, by its first frame. -/
def CoroFrame.progress (f : CoroFrame Q V A R) : Progress V :=
  match f.point, f.value with
  | .done, some v => .finished v
  | _, _ => .waiting

namespace TaskWorker

/-- A worker on which no handler has run. -/
def start (s : S) : TaskWorker Q V A R S := ⟨⟨[], [], s⟩, fun _ => none, 0⟩

/-- What can be seen of the handlers of a worker. -/
def seen (k : TaskWorker Q V A R S) : Seen Q V S where
  shared := k.world.shared
  queue := k.world.queue.map fun e => (e.1, e.2.2)
  progress i := (k.roots i).bind fun r => (k.world.frame r).map CoroFrame.progress

variable (perform : A → S → R × S) (body : P → Coroutine Q V A R)

/-- **One event**, if it can happen: a request is dispatched, a result is read
and handed on, a stream is closed. -/
def step (k : TaskWorker Q V A R S) : ProgramEvent P V →
    Except TaskFault (TaskWorker Q V A R S)
  | .start p =>
    match CoroWorld.exec perform k.next (body p) k.world.fresh
      (k.world.alloc ⟨k.next, .running, none, none⟩) with
    | .error f => .error (.coro f)
    | .ok w =>
      .ok ⟨w, Function.update k.roots k.next (some k.world.fresh), k.next + 1⟩
  | .answer v =>
    match k.world.queue with
    | [] => .error .impossible
    | (i, h, _) :: rest =>
      -- `is_stream_alive`
      match k.roots i with
      | none => .ok { k with world := { k.world with queue := rest } }
      | some _ =>
        match CoroWorld.handleResult perform i h v
          { k.world with queue := rest } with
        | .error f => .error (.coro f)
        | .ok w => .ok { k with world := w }
  | .close i =>
    match k.roots i with
    | none => .error .impossible
    | some r =>
      match CoroWorld.destroy k.world.frames.length r k.world with
      | .error f => .error (.coro f)
      | .ok w => .ok { k with world := w, roots := Function.update k.roots i none }

/-! ## A handler and its program -/

/-- The handles that wait for results on behalf of a handler. -/
def handles (queue : List (ℕ × ℕ × Q)) (i : ℕ) : List ℕ :=
  (queue.filter fun e => e.1 = i).map fun e => e.2.1

/-- **A handler is where its program is**: both are gone, both wait, the
handler as a chain whose last frame alone is in the queue, or both have ended,
the handler with one frame left. -/
inductive Follows (w : CoroWorld Q V A R S) (i : ℕ) :
    Option ℕ → Option (Standing Q V A R) → Prop
  | gone (hnone : ∀ h f, w.frame h = some f → f.owner ≠ i) : Follows w i none none
  | waits {root leaf : ℕ} {hs : List ℕ} {K : V → Resumption Q V A R}
      (hc : CoroWorld.Chain w.frame i root none hs leaf K)
      (hqueue : handles w.queue i = [leaf])
      (hall : ∀ h f, w.frame h = some f → f.owner = i → h ∈ hs) :
    Follows w i (some root) (some (.waits K))
  | finished {root : ℕ} {v : V}
      (hf : w.frame root = some ⟨i, .done, none, some v⟩)
      (hqueue : handles w.queue i = [])
      (hall : ∀ h f, w.frame h = some f → f.owner = i → h = root) :
    Follows w i (some root) (some (.finished v))

/-- **A worker is where the programs are.** -/
structure Simulates (k : TaskWorker Q V A R S) (d : Direct Q V A R S) :
    Prop where
  shared : k.world.shared = d.shared
  next : k.next = d.next
  queue : k.world.queue.map (fun e => (e.1, e.2.2)) = d.queue
  follows : ∀ i, Follows k.world i (k.roots i) (d.programs i)
  unused : ∀ i, k.next ≤ i → k.roots i = none ∧ handles k.world.queue i = []

variable {w w' : CoroWorld Q V A R S} {i j h : ℕ} {hs : List ℕ}

theorem handles_append (queue : List (ℕ × ℕ × Q)) (e : ℕ × ℕ × Q) (i : ℕ) :
    handles (queue ++ [e]) i
      = handles queue i ++ if e.1 = i then [e.2.1] else [] := by
  unfold handles
  rw [List.filter_append, List.map_append]
  by_cases he : e.1 = i
  · rw [if_pos he, List.filter_cons_of_pos (by simpa using he)]
    rfl
  · rw [if_neg he, List.filter_cons_of_neg (by simpa using he)]
    rfl

theorem handles_cons (queue : List (ℕ × ℕ × Q)) (e : ℕ × ℕ × Q) (i : ℕ) :
    handles (e :: queue) i
      = (if e.1 = i then [e.2.1] else []) ++ handles queue i := by
  unfold handles
  by_cases he : e.1 = i
  · rw [if_pos he, List.filter_cons_of_pos (by simpa using he)]
    rfl
  · rw [if_neg he, List.filter_cons_of_neg (by simpa using he)]
    rfl

/-- **Only its own frames and its own handles matter to a handler.** -/
theorem Follows.of_same {root : Option ℕ} {st : Option (Standing Q V A R)}
    (hfollows : Follows w j root st)
    (hframe : ∀ x f, f.owner = j → (w.frame x = some f ↔ w'.frame x = some f))
    (hqueue : handles w'.queue j = handles w.queue j) : Follows w' j root st := by
  cases hfollows with
  | gone hnone =>
    exact .gone fun x f hf howner =>
      hnone x f ((hframe x f howner).mpr hf) howner
  | waits hc hleaf hall =>
    refine .waits (hc.congr fun x hx => ?_) (hqueue.trans hleaf)
      fun x f hf howner => hall x f ((hframe x f howner).mpr hf) howner
    obtain ⟨f, hf, howner⟩ := hc.frame_of_mem hx
    rw [hf, (hframe x f howner).mp hf]
  | finished hf hleaf hall =>
    exact .finished ((hframe _ _ rfl).mp hf) (hqueue.trans hleaf)
      fun x f hf' howner => hall x f ((hframe x f howner).mpr hf') howner

/-- What a handler does changes no frame of another one. -/
theorem frame_iff_of_ends {cont : Option ℕ} {r : Settled Q V A R × S}
    (he : CoroWorld.Ends w.frame w.queue i h cont hs r w') (hmem : h ∈ hs)
    (hmine : ∀ x ∈ hs, ∀ f, w.frame x = some f → f.owner = i) (hj : j ≠ i) (x : ℕ)
    (f : CoroFrame Q V A R) (howner : f.owner = j) :
    w.frame x = some f ↔ w'.frame x = some f := by
  have hout : w.frame x = some f → x ∉ hs := fun hf hx =>
    hj (howner.symm.trans (hmine x hx f hf))
  cases he with
  | done _ _ hf' hsame =>
    by_cases hx : x = h
    · rw [hx, hf']
      refine iff_of_false (fun hf => hout (hx ▸ hf) (hx ▸ hmem)) fun hf => ?_
      cases hf
      exact hj howner.symm
    · rw [hsame x hx]
      by_cases hin : x ∈ hs
      · rw [if_pos hin]
        exact iff_of_false (fun hf => hout hf hin) nofun
      · rw [if_neg hin]
  | @asks _ _ _ _ hs' _ _ _ hc hnew hsame =>
    by_cases hx : x ∈ hs'
    · obtain ⟨f', hf', howner'⟩ := hc.frame_of_mem hx
      refine iff_of_false (fun hf => ?_) fun hf => ?_
      · rcases hnew x hx with hin | hnone
        · exact hout hf hin
        · rw [hf] at hnone
          cases hnone
      · rw [hf'] at hf
        cases hf
        exact hj (howner.symm.trans howner')
    · rw [hsame x hx]
      by_cases hin : x ∈ hs
      · rw [if_pos hin]
        exact iff_of_false (fun hf => hout hf hin) nofun
      · rw [if_neg hin]

/-- **A handler and its program settle together.** -/
theorem simulates_settled (roots : ℕ → Option ℕ) {n : ℕ}
    {d : Direct Q V A R S} {r : Settled Q V A R × S} (hnext : n = d.next)
    (hqueue : w.queue.map (fun e => (e.1, e.2.2)) = d.queue)
    (hfollows : ∀ j, j ≠ i → Follows w j (roots j) (d.programs j))
    (hmem : h ∈ hs) (hmine : ∀ x ∈ hs, ∀ f, w.frame x = some f → f.owner = i)
    (hall : ∀ x f, w.frame x = some f → f.owner = i → x ∈ hs)
    (hnone : handles w.queue i = [])
    (hunused : ∀ j, n ≤ j → roots j = none ∧ handles w.queue j = []) (hi : i < n)
    (he : CoroWorld.Ends w.frame w.queue i h none hs r w') :
    Simulates ⟨w', Function.update roots i (some h), n⟩ (d.settled i r) := by
  have hiff := fun j (hj : j ≠ i) => frame_iff_of_ends he hmem hmine hj
  have hunroot : ∀ j, n ≤ j → Function.update roots i (some h) j = none :=
    fun j hj => by
      rw [Function.update_of_ne (by omega)]
      exact (hunused j hj).1
  cases he with
  | @done v s _ hshared hqueue' hf hsame =>
    refine ⟨hshared, hnext, by rw [hqueue', hqueue]; rfl, fun j => ?_,
      fun j hj => ⟨hunroot j hj, by rw [hqueue']; exact (hunused j hj).2⟩⟩
    show Follows w' j (Function.update roots i (some h) j)
      (Function.update d.programs i (some (.finished v)) j)
    by_cases hj : j = i
    · rw [hj, Function.update_self, Function.update_self]
      refine .finished hf (by rw [hqueue', hnone]) fun x f hf' howner => ?_
      by_contra hx
      rw [hsame x hx] at hf'
      split_ifs at hf' with hin
      exact hin (hall x f hf' howner)
    · rw [Function.update_of_ne hj, Function.update_of_ne hj]
      exact (hfollows j hj).of_same (hiff j hj) (by rw [hqueue'])
  | @asks q K s _ hs' leaf hshared hqueue' hc hnew hsame =>
    refine ⟨hshared, hnext, ?_, fun j => ?_,
      fun j hj => ⟨hunroot j hj, ?_⟩⟩
    · rw [hqueue', List.map_append, hqueue]
      rfl
    · show Follows w' j (Function.update roots i (some h) j)
        (Function.update d.programs i (some (.waits K)) j)
      by_cases hj : j = i
      · rw [hj, Function.update_self, Function.update_self]
        refine .waits hc ?_ fun x f hf' howner => ?_
        · rw [hqueue', handles_append, hnone, if_pos rfl]
          rfl
        · by_contra hx
          rw [hsame x hx] at hf'
          split_ifs at hf' with hin
          exact hin (hall x f hf' howner)
      · rw [Function.update_of_ne hj, Function.update_of_ne hj]
        refine (hfollows j hj).of_same (hiff j hj) ?_
        rw [hqueue', handles_append, if_neg (Ne.symm hj), List.append_nil]
    · have hle : n ≤ j := hj
      have hne : i ≠ j := by omega
      rw [hqueue', handles_append, if_neg hne, (hunused j hj).2]
      rfl

/-- **A request is dispatched**, to a coroutine and to its program. -/
theorem Simulates.started {k : TaskWorker Q V A R S} {d : Direct Q V A R S}
    (hs : k.Simulates d) (p : P) :
    ∃ k', k.step perform body (.start p) = .ok k'
      ∧ k'.Simulates ({ d with next := d.next + 1 }.settled d.next
        ((body p).tree.settle perform d.shared)) := by
  set w := k.world.alloc ⟨k.next, .running, none, none⟩ with hw
  have hcall : w.frame k.world.fresh = some ⟨k.next, .running, none, none⟩ := by
    rw [hw, CoroWorld.frame_alloc, if_pos rfl]
  obtain ⟨hroot, hhandles⟩ := hs.unused k.next (Nat.le_refl _)
  -- nothing of an earlier handler bears this serial
  have hnone : ∀ x f, k.world.frame x = some f → f.owner ≠ k.next := by
    have hgone := hs.follows k.next
    rw [hroot] at hgone
    generalize d.programs k.next = st at hgone
    cases hgone with
    | gone hnone => exact hnone
  obtain ⟨w', hw', hends⟩ := CoroWorld.exec_spec perform (body p) hcall rfl
  refine ⟨_, by rw [step, hw'], ?_⟩
  rw [← hs.next]
  have hshared : w.shared = d.shared := hs.shared
  rw [← hshared]
  refine simulates_settled (w := w) (d := { d with next := k.next + 1 })
    k.roots rfl hs.queue
    (fun j hj => (hs.follows j).of_same (fun x f howner => ?_) rfl)
    (List.mem_singleton_self _) (fun x hx f hf => ?_) (fun x f hf howner => ?_)
    hhandles (fun j hj => hs.unused j (Nat.le_of_succ_le hj))
    (Nat.lt_succ_self _) hends
  · rw [hw, CoroWorld.frame_alloc]
    by_cases hx : x = k.world.fresh
    · rw [if_pos hx, hx, k.world.frame_fresh]
      refine iff_of_false nofun fun hf => ?_
      cases hf
      exact hj howner.symm
    · rw [if_neg hx]
  · rw [List.mem_singleton.mp hx, hcall] at hf
    cases hf
    rfl
  · rw [hw, CoroWorld.frame_alloc] at hf
    by_cases hx : x = k.world.fresh
    · exact List.mem_singleton.mpr hx
    · rw [if_neg hx] at hf
      exact absurd howner (hnone x f hf)

/-- **A result is read**, for a coroutine and for its program. -/
theorem Simulates.answered {k : TaskWorker Q V A R S} {d : Direct Q V A R S}
    (hs : k.Simulates d) {e : ℕ × ℕ × Q} {rest : List (ℕ × ℕ × Q)}
    (hqueue : k.world.queue = e :: rest) (v : V) :
    ∃ k' d', k.step perform body (.answer v) = .ok k'
      ∧ d.step perform (fun p => (body p).tree) (.answer v) = .ok d'
      ∧ k'.Simulates d' := by
  obtain ⟨i, leaf, q⟩ := e
  have hdqueue : d.queue = (i, q) :: rest.map fun e => (e.1, e.2.2) := by
    rw [← hs.queue, hqueue]
    rfl
  have hcons : ∀ j, handles k.world.queue j
      = (if i = j then [leaf] else []) ++ handles rest j := fun j => by
    rw [hqueue, handles_cons]
  have hother : ∀ j, j ≠ i → Follows { k.world with queue := rest } j
      (k.roots j) (d.programs j) := fun j hj =>
    (hs.follows j).of_same (fun _ _ _ => Iff.rfl) (by
      rw [hcons j, if_neg (Ne.symm hj)]
      rfl)
  have hunused : ∀ j, k.next ≤ j → k.roots j = none ∧ handles rest j = [] :=
    fun j hj => by
      obtain ⟨hroot, hnil⟩ := hs.unused j hj
      rw [hcons j, List.append_eq_nil_iff] at hnil
      exact ⟨hroot, hnil.2⟩
  have hfollows := hs.follows i
  generalize hroot : k.roots i = root at hfollows
  generalize hprogram : d.programs i = st at hfollows
  cases hfollows with
  | gone hnone =>
    refine ⟨{ k with world := { k.world with queue := rest } },
      { d with queue := rest.map fun e => (e.1, e.2.2) }, ?_, ?_,
      hs.shared, hs.next, rfl, fun j => ?_, hunused⟩
    · simp only [step, hqueue, hroot]
    · simp only [Direct.step, hdqueue, hprogram]
    · by_cases hj : j = i
      · show Follows _ j (k.roots j) (d.programs j)
        rw [hj, hroot, hprogram]
        exact .gone hnone
      · exact hother j hj
  | @waits root leaf' hs' K hc hleaf hall =>
    rw [hcons i, if_pos rfl] at hleaf
    obtain ⟨rfl, hrest⟩ := List.cons.inj hleaf
    have hi : i < k.next := by
      by_contra hle
      have hgone := (hs.unused i (Nat.not_lt.mp hle)).1
      rw [hroot] at hgone
      cases hgone
    obtain ⟨w', hw', hends⟩ := CoroWorld.handleResult_spec perform
      (w := { k.world with queue := rest }) hc v
    have hset : Function.update k.roots i (some root) = k.roots := by
      rw [← hroot, Function.update_eq_self]
    set d₁ : Direct Q V A R S :=
      { d with queue := rest.map fun e => (e.1, e.2.2) } with hd₁
    refine ⟨{ k with world := w' }, d₁.settled i
      ((K v).settle perform d.shared), ?_, ?_, ?_⟩
    · simp only [step, hqueue, hroot, hw']
    · simp only [Direct.step, hdqueue, hprogram, hd₁]
    · rw [← hs.shared]
      have hsettled := simulates_settled k.roots (n := k.next) (d := d₁)
        hs.next rfl hother hc.head_mem (fun x hx f hf => ?_) hall hrest hunused
        hi hends
      · rw [hset] at hsettled
        exact hsettled
      · obtain ⟨f', hf', howner⟩ := hc.frame_of_mem hx
        have hf : k.world.frame x = some f := hf
        rw [hf'] at hf
        cases hf
        exact howner
  | finished hf hnil hall =>
    rw [hcons i, if_pos rfl] at hnil
    cases hnil

/-- **A stream is closed**, and its handler destroyed. -/
theorem Simulates.closed {k : TaskWorker Q V A R S} {d : Direct Q V A R S}
    (hs : k.Simulates d) {i root : ℕ} (hroot : k.roots i = some root) :
    ∃ k' d', k.step perform body (.close i) = .ok k'
      ∧ d.step perform (fun p => (body p).tree) (.close i) = .ok d'
      ∧ k'.Simulates d' := by
  -- the frames that are destroyed are those of the handler
  obtain ⟨w', hs', st, hprogram, hw', hqueue, hshared, hframe, hmine, hall⟩ :
      ∃ (w' : CoroWorld Q V A R S) (hs' : List ℕ) (st : Standing Q V A R),
        d.programs i = some st
        ∧ CoroWorld.destroy k.world.frames.length root k.world = .ok w'
        ∧ w'.queue = k.world.queue ∧ w'.shared = k.world.shared
        ∧ (∀ x, w'.frame x = if x ∈ hs' then none else k.world.frame x)
        ∧ (∀ x ∈ hs', ∀ f, k.world.frame x = some f → f.owner = i)
        ∧ ∀ x f, k.world.frame x = some f → f.owner = i → x ∈ hs' := by
    have hfollows := hs.follows i
    rw [hroot] at hfollows
    generalize hprogram : d.programs i = st at hfollows
    cases hfollows with
    | @waits _ leaf hs' K hc hleaf hall =>
      obtain ⟨w', hw', hqueue, hshared, hframe⟩ := CoroWorld.destroy_spec hc
        (k.world.frames.length - (hs'.length - 1))
      have hle := hc.length_le
      rw [Nat.sub_add_cancel (by omega)] at hw'
      refine ⟨w', hs', _, rfl, hw', hqueue, hshared, hframe, fun x hx f hf => ?_,
        hall⟩
      obtain ⟨f', hf', howner⟩ := hc.frame_of_mem hx
      rw [hf'] at hf
      cases hf
      exact howner
    | @finished _ v hf hnil hall =>
      refine ⟨k.world.free root, [root], _, rfl,
        CoroWorld.destroy_of_done hf _, rfl, rfl, fun x => ?_, fun x hx f hf' => ?_,
        fun x f hf' howner => List.mem_singleton.mpr (hall x f hf' howner)⟩
      · rw [CoroWorld.frame_free]
        exact if_congr List.mem_singleton.symm rfl rfl
      · rw [List.mem_singleton.mp hx, hf] at hf'
        cases hf'
        rfl
  refine ⟨{ k with world := w', roots := Function.update k.roots i none },
    { d with programs := Function.update d.programs i none }, ?_, ?_,
    hshared.trans hs.shared, hs.next, by rw [hqueue]; exact hs.queue,
    fun j => ?_, fun j hj => ?_⟩
  · simp only [step, hroot, hw']
  · simp only [Direct.step, hprogram]
  · show Follows w' j (Function.update k.roots i none j)
      (Function.update d.programs i none j)
    by_cases hj : j = i
    · rw [hj, Function.update_self, Function.update_self]
      refine .gone fun x f hf howner => ?_
      rw [hframe x] at hf
      split_ifs at hf with hin
      exact hin (hall x f hf howner)
    · rw [Function.update_of_ne hj, Function.update_of_ne hj]
      refine (hs.follows j).of_same (fun x f howner => ?_) (by rw [hqueue])
      rw [hframe x]
      by_cases hin : x ∈ hs'
      · rw [if_pos hin]
        exact iff_of_false
          (fun hf => hj (howner.symm.trans (hmine x hin f hf))) fun hf => by cases hf
      · rw [if_neg hin]
  · obtain ⟨hnone, hnil⟩ := hs.unused j hj
    refine ⟨?_, by rw [hqueue]; exact hnil⟩
    show Function.update k.roots i none j = none
    by_cases hji : j = i
    · rw [hji, Function.update_self]
    · rw [Function.update_of_ne hji, hnone]

/-! ## Runs -/

theorem simulates_start (s : S) :
    (start s : TaskWorker Q V A R S).Simulates (Direct.start s) where
  shared := rfl
  next := rfl
  queue := rfl
  follows _ := .gone fun h f hf => by
    have hlt := CoroWorld.lt_of_frame hf
    exact absurd hlt (Nat.not_lt_zero h)
  unused _ _ := ⟨rfl, rfl⟩

/-- **Every event takes both on, or neither.** -/
theorem Simulates.step {k : TaskWorker Q V A R S} {d : Direct Q V A R S}
    (hs : k.Simulates d) (e : ProgramEvent P V) :
    (∃ k' d', k.step perform body e = .ok k'
        ∧ d.step perform (fun p => (body p).tree) e = .ok d' ∧ k'.Simulates d')
      ∨ (k.step perform body e = .error .impossible
        ∧ d.step perform (fun p => (body p).tree) e = .error ()) := by
  cases e with
  | start p =>
    obtain ⟨k', hk', hs'⟩ := hs.started perform body p
    exact .inl ⟨k', _, hk', rfl, hs'⟩
  | answer v =>
    cases hqueue : k.world.queue with
    | nil =>
      have hdqueue := hs.queue
      rw [hqueue] at hdqueue
      refine .inr ⟨by simp only [TaskWorker.step, hqueue], ?_⟩
      simp only [Direct.step, ← hdqueue, List.map_nil]
    | cons e rest => exact .inl (hs.answered perform body hqueue v)
  | close i =>
    cases hroot : k.roots i with
    | none =>
      have hfollows := hs.follows i
      rw [hroot] at hfollows
      generalize hprogram : d.programs i = st at hfollows
      cases hfollows
      refine .inr ⟨by simp only [TaskWorker.step, hroot], ?_⟩
      simp only [Direct.step, hprogram]
    | some root => exact .inl (hs.closed perform body hroot)

/-- What can be seen of both is the same. -/
theorem Simulates.seen_eq {k : TaskWorker Q V A R S} {d : Direct Q V A R S}
    (hs : k.Simulates d) : k.seen = d.seen := by
  have hprogress : k.seen.progress = d.seen.progress := by
    funext i
    have hfollows := hs.follows i
    show ((k.roots i).bind fun r => (k.world.frame r).map CoroFrame.progress)
      = (d.programs i).map Standing.progress
    generalize k.roots i = root at hfollows
    generalize d.programs i = st at hfollows
    cases hfollows with
    | gone => rfl
    | waits hc =>
      cases hc with
      | asked hf =>
        rw [Option.bind_some, hf]
        rfl
      | awaits hf =>
        rw [Option.bind_some, hf]
        rfl
    | finished hf =>
      rw [Option.bind_some, hf]
      rfl
  rw [TaskWorker.seen, Direct.seen, hs.shared, hs.queue]
  exact congrArg (Seen.mk d.shared d.queue) hprogress

/-- A run of both. -/
theorem simulates_of_run (s₀ : S) (es : List (ProgramEvent P V)) :
    (∃ k d, Run.exec (step perform body) (start s₀) es = .ok k
        ∧ Run.exec (Direct.step perform fun p => (body p).tree)
            (Direct.start s₀) es = .ok d
        ∧ k.Simulates d)
      ∨ (Run.exec (step perform body) (start s₀) es = .error .impossible
        ∧ Run.exec (Direct.step perform fun p => (body p).tree)
            (Direct.start s₀) es = .error ()) :=
  Run.exec_lockstep (R := Simulates)
    (fun _ _ e hs => hs.step perform body e) (simulates_start s₀) es

/-- **Coroutine handlers are programs in direct style.** Whichever `Coroutine`
each handler is, whenever requests are dispatched, results handed on and streams
closed, the worker goes through the same run as the programs in direct style: no
frame is resumed or destroyed that is not there or not suspended, no value is
missing from a promise, every handler has done the same to what they share, has
the same queries in the queue, and has got as far or returned the same. -/
theorem refines_direct (s₀ : S) (es : List (ProgramEvent P V)) :
    (∃ k d, Run.exec (step perform body) (start s₀) es = .ok k
        ∧ Run.exec (Direct.step perform fun p => (body p).tree)
            (Direct.start s₀) es = .ok d
        ∧ k.seen = d.seen)
      ∨ (Run.exec (step perform body) (start s₀) es = .error .impossible
        ∧ Run.exec (Direct.step perform fun p => (body p).tree)
            (Direct.start s₀) es = .error ()) := by
  rcases simulates_of_run perform body s₀ es with ⟨k, d, hk, hd, hs⟩ | herror
  · exact .inl ⟨k, d, hk, hd, hs.seen_eq⟩
  · exact .inr herror

/-- **Nothing is left behind.** After any run every frame on the heap is one of
a handler whose stream is there; a handler that has ended has kept one frame,
whose promise has its value, and one that waits has all its frames in a chain,
of which the last one is the only one in the queue. So when all streams are
closed the heap is empty. -/
theorem frames_of_run {s₀ : S} {es : List (ProgramEvent P V)}
    {k : TaskWorker Q V A R S}
    (h : Run.exec (step perform body) (start s₀) es = .ok k) :
    (∀ x f, k.world.frame x = some f → (k.roots f.owner).isSome = true)
      ∧ ∀ i root, k.roots i = some root →
        (∃ v, k.world.frame root = some ⟨i, .done, none, some v⟩
          ∧ ∀ x f, k.world.frame x = some f → f.owner = i → x = root)
        ∨ ∃ hs leaf K, CoroWorld.Chain k.world.frame i root none hs leaf K
          ∧ handles k.world.queue i = [leaf]
          ∧ ∀ x f, k.world.frame x = some f → (f.owner = i ↔ x ∈ hs) := by
  obtain ⟨d, hs⟩ : ∃ d : Direct Q V A R S, k.Simulates d := by
    rcases simulates_of_run perform body s₀ es with
      ⟨k', d, hk', -, hs⟩ | ⟨herror, -⟩
    · rw [h] at hk'
      cases hk'
      exact ⟨d, hs⟩
    · rw [h] at herror
      cases herror
  refine ⟨fun x f hf => ?_, fun i root hroot => ?_⟩
  · have hfollows := hs.follows f.owner
    cases hroot : k.roots f.owner with
    | some root => rfl
    | none =>
      rw [hroot] at hfollows
      generalize d.programs f.owner = st at hfollows
      cases hfollows with
      | gone hnone => exact absurd rfl (hnone x f hf)
  · have hfollows := hs.follows i
    rw [hroot] at hfollows
    generalize d.programs i = st at hfollows
    cases hfollows with
    | waits hc hqueue hall =>
      refine .inr ⟨_, _, _, hc, hqueue, fun x f hf =>
        ⟨hall x f hf, fun hx => ?_⟩⟩
      obtain ⟨f', hf', howner⟩ := hc.frame_of_mem hx
      rw [hf] at hf'
      cases hf'
      exact howner
    | finished hf hqueue hall => exact .inl ⟨_, hf, hall⟩

end TaskWorker
