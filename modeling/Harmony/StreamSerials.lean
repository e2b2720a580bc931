import Harmony.DbPipeline

/-!
# Streams and their serials

A query may outlive its stream: by the time its result is read, the client may
have reset the stream or gone away altogether. The completion handler must not
be called then, since it belongs to the `Stream` object. Stream ids do not tell
two streams apart – every session begins with 1 – so the worker numbers the
streams itself: the constructor of a `Stream` takes the next serial and enters
it into `alive_streams_`, the destructor takes it out, and `read` asks
`is_stream_alive` before it calls a handler.

`HttpWorker` is a worker with its sessions and the `Stream` objects they hold.
After any run the serials in `alive_streams_` are those of the streams that
exist, no serial was given out twice, and every handler called from there on
belongs to a stream that exists when it is called
(`HttpWorker.serials_of_run`).
-/

open Db

namespace Db.Worker

variable {w : World} {k k' : Worker}

/-- `Worker::add_stream`: the serial, and the worker behind it. -/
def addStream (k : Worker) : ℕ × Worker :=
  (k.nextStreamSerial, { k with
    nextStreamSerial := k.nextStreamSerial + 1
    aliveStreams := insert k.nextStreamSerial k.aliveStreams })

/-- `Worker::remove_stream`. -/
def removeStream (k : Worker) (serial : ℕ) : Worker :=
  { k with aliveStreams := k.aliveStreams.erase serial }

/-! ## What the session with the database does to streams -/

/-- **It serves the streams that are alive**: the streams stay as they are, and
every handler called is one of a stream that is alive. -/
structure Serves (k k' : Worker) : Prop where
  aliveStreams : k'.aliveStreams = k.aliveStreams
  nextStreamSerial : k'.nextStreamSerial = k.nextStreamSerial
  submitted : k.submitted <+: k'.submitted
  calls : ∃ new, k'.calls = k.calls ++ new ∧ ∀ c ∈ new,
    ∃ stream ∈ k.aliveStreams, k'.submitted[c.handler]? = some stream

namespace Serves

theorem refl (k : Worker) : k.Serves k :=
  ⟨rfl, rfl, List.prefix_rfl, [], (List.append_nil _).symm,
    fun _ hc => absurd hc List.not_mem_nil⟩

/-- A query keeps its stream when others are submitted. -/
theorem getElem?_submitted (h : k.Serves k') {handler stream : ℕ}
    (hget : k.submitted[handler]? = some stream) :
    k'.submitted[handler]? = some stream := by
  obtain ⟨more, hmore⟩ := h.submitted
  rw [← hmore,
    List.getElem?_append_left (List.getElem?_eq_some_iff.mp hget).1]
  exact hget

theorem trans {k'' : Worker} (h : k.Serves k') (h' : k'.Serves k'') :
    k.Serves k'' := by
  obtain ⟨new, hnew, hstreams⟩ := h.calls
  obtain ⟨new', hnew', hstreams'⟩ := h'.calls
  refine ⟨h'.aliveStreams.trans h.aliveStreams,
    h'.nextStreamSerial.trans h.nextStreamSerial,
    h.submitted.trans h'.submitted, new ++ new', ?_, ?_⟩
  · rw [hnew', hnew, List.append_assoc]
  · intro c hc
    rcases List.mem_append.mp hc with hc | hc
    · obtain ⟨stream, halive, hget⟩ := hstreams c hc
      exact ⟨stream, halive, h'.getElem?_submitted hget⟩
    · rw [← h.aliveStreams]
      exact hstreams' c hc

/-- What changes neither the streams nor the calls. -/
theorem congr (halive : k'.aliveStreams = k.aliveStreams)
    (hnext : k'.nextStreamSerial = k.nextStreamSerial)
    (hsubmitted : k'.submitted = k.submitted) (hcalls : k'.calls = k.calls) :
    k.Serves k' := by
  refine ⟨halive, hnext, hsubmitted ▸ List.prefix_rfl, [], ?_,
    fun _ hc => absurd hc List.not_mem_nil⟩
  rw [hcalls, List.append_nil]

/-- Submitting calls nothing. -/
theorem submits {new : List Query} (hs : k.Submits k' new) : k.Serves k' := by
  refine ⟨hs.aliveStreams, hs.nextStreamSerial, hs.submitted ▸ ⟨_, rfl⟩, [], ?_,
    fun _ hc => absurd hc List.not_mem_nil⟩
  rw [hs.calls, List.append_nil]

/-- **A handler is called if its stream is alive.** -/
theorem answered {d : DispatchedQuery} (h : k.Owned)
    (hd : d ∈ k.session.dispatched) : k.Serves (k.answered w d) := by
  refine ⟨rfl, rfl, List.prefix_rfl, _, rfl, fun c hc => ?_⟩
  split_ifs at hc with hhears
  · rw [List.mem_singleton.mp hc]
    exact ⟨d.streamSerial, hhears.2, h.dispatched d hd⟩
  · exact absurd hc List.not_mem_nil

end Serves

/-- **Reading serves the streams that are alive.** -/
theorem Owned.read {consumed : Bool} {ready : ℕ} {r : Worker × Bool}
    (h : k.Owned) (haligned : k.Aligned w)
    (hread : k.read w consumed ready = .ok r) :
    r.1.Owned ∧ k.Serves r.1 := by
  unfold Worker.read at hread
  split_ifs at hread
  · cases hread
    exact ⟨h, .refl k⟩
  · obtain ⟨r', hr', -, hQ⟩ := haligned.readAll_rule
      (I := fun _ k₁ => k₁.Owned ∧ k.Serves k₁)
      (Q := fun r => r.1.Owned ∧ k.Serves r.1)
      (fun _ _ hI _ => hI)
      (fun _ k₁ rest _ hI _ => ⟨⟨hI.1.queued, hI.1.dispatched⟩,
        hI.2.trans (.congr rfl rfl rfl rfl)⟩)
      (fun _ k₁ d ds k₂ new _ hI hdispatched _ hs _ => by
        have hd : d ∈ k₁.session.dispatched :=
          hdispatched ▸ List.mem_cons_self
        have hafter : k₂.Owned ∧ k.Serves k₂ :=
          ⟨(hI.1.answered d).submits hs,
            (hI.2.trans (.answered hI.1 hd)).trans (.submits hs)⟩
        split_ifs
        · exact hafter
        · exact hafter)
      ready ⟨h, .refl k⟩
    rw [hr'] at hread
    cases hread
    exact hQ

/-- Another session in place of one that has failed. -/
theorem Owned.orRestart {r : Worker × Bool} (h : r.1.Owned)
    (hserves : k.Serves r.1) (first : Poll) :
    (Worker.orRestart first r).Owned
      ∧ k.Serves (Worker.orRestart first r) := by
  unfold Worker.orRestart
  split_ifs
  · exact ⟨h, hserves⟩
  · exact ⟨.restart r.1 first, hserves.trans (.congr rfl rfl rfl rfl)⟩

/-- A poll touches no query. -/
theorem Owned.poll (h : k.Owned) (answer : PollAnswer) (first : Poll) :
    (Worker.orRestart first
        (k.withSession (k.session.pollAnswer answer))).Owned
      ∧ k.Serves (Worker.orRestart first
        (k.withSession (k.session.pollAnswer answer))) := by
  have hpolls := k.session.pollAnswer_polls answer
  refine Owned.orRestart (k := k)
    (r := k.withSession (k.session.pollAnswer answer)) ⟨?_, ?_⟩
    (.congr rfl rfl rfl rfl) first
  · show ∀ q ∈ (k.session.pollAnswer answer).1.queued, _
    rw [hpolls.queued]
    exact h.queued
  · show ∀ d ∈ (k.session.pollAnswer answer).1.dispatched, _
    rw [hpolls.dispatched]
    exact h.dispatched

/-- **When the socket can be read**, the streams that are alive are served. -/
theorem Owned.readable {consumed : Bool} {ready : ℕ} {poll restart : Poll}
    (h : k.Owned) (haligned : k.Aligned w)
    (hstep : k.step w (.readable consumed ready poll restart) = .ok k') :
    k'.Owned ∧ k.Serves k' := by
  rcases step_readable hstep with rfl | ⟨-, -, rfl⟩ | ⟨-, -, r, hread, rfl⟩
  · exact ⟨h, .refl _⟩
  · exact h.poll poll.answer restart
  · obtain ⟨howned, hserves⟩ := h.read haligned hread
    exact howned.orRestart hserves restart

/-- When the socket can be written, nothing is called. -/
theorem Owned.writable {flushes : List FlushAnswer} {poll restart : Poll}
    (h : k.Owned) (hstep : k.step w (.writable flushes poll restart) = .ok k') :
    k'.Owned ∧ k.Serves k' := by
  rcases step_writable hstep with rfl | ⟨-, -, rfl⟩ | ⟨-, -, r, hwrite, rfl⟩
  · exact ⟨h, .refl _⟩
  · exact h.poll poll.answer restart
  · obtain ⟨moved, hwrites⟩ := Session.write_sends hwrite
    exact Owned.orRestart (k := k) (r := k.withSession r)
      (h.sends hwrites.toSends) (.congr rfl rfl rfl rfl) restart

end Db.Worker

/-! ## The worker and its sessions -/

/-- **A `Stream` object**: the session it belongs to, its id there, and its
serial. -/
structure StreamObject where
  session : ℕ
  id : ℤ
  serial : ℕ
  deriving DecidableEq, Repr

/-- **A worker with its HTTP sessions.** A session is known by its address,
which a later one may have again. -/
structure HttpWorker where
  db : Db.Worker
  sessions : List ℕ
  /-- The streams that exist, in the `streams_` of whichever session. -/
  streams : List StreamObject
  /-- The serials given to the streams constructed so far. -/
  created : List ℕ

/-- **What happens on a worker.** The poll `restart` is as in `Db.Event`. -/
inductive HttpWorker.Step where
  /-- A connection is accepted. -/
  | accept (session : ℕ)
  /-- nghttp2 calls `on_begin_headers_cb`, for a request or for something
  else. -/
  | beginHeaders (session : ℕ) (id : ℤ) (request : Bool)
  /-- nghttp2 calls `on_stream_close_cb`. -/
  | streamClose (session : ℕ) (id : ℤ)
  /-- A session is destroyed, with all its streams. -/
  | removeSession (session : ℕ)
  /-- A handler of a stream submits a query. -/
  | query (session : ℕ) (id : ℤ) (call : SendCall)
  /-- The socket of the database can be read. -/
  | readable (consumed : Bool) (ready : ℕ) (poll restart : Poll)
  /-- The socket of the database can be written. -/
  | writable (flushes : List FlushAnswer) (poll restart : Poll)
  deriving DecidableEq, Repr

namespace HttpWorker

/-- A worker without sessions. -/
def start (first : Poll) : HttpWorker := ⟨Worker.start first, [], [], []⟩

/-- `HttpSession::get_stream`. -/
def getStream (k : HttpWorker) (session : ℕ) (id : ℤ) : Option StreamObject :=
  k.streams.find? fun s => s.session = session ∧ s.id = id

/-- **`on_begin_headers_cb`**: `try_emplace` constructs a stream unless there is
one with the id. -/
def beginHeaders (k : HttpWorker) (session : ℕ) (id : ℤ) : HttpWorker :=
  match k.getStream session id with
  | some _ => k
  | none =>
    { k with
      db := k.db.addStream.2
      streams := k.streams ++ [⟨session, id, k.db.addStream.1⟩]
      created := k.created ++ [k.db.addStream.1] }

/-- Some streams are destroyed, one after the other. -/
def destroy (k : HttpWorker) (gone : StreamObject → Bool) : HttpWorker :=
  { k with
    db := (k.streams.filter gone).foldl (fun db s => db.removeStream s.serial)
      k.db
    streams := k.streams.filter fun s => !gone s }

/-- **One step.** Nothing happens to a session, and nothing is submitted by a
stream, that is not there: the stream that submits is looked up among those
that exist. -/
def step (w : World) (k : HttpWorker) : Step → Except Fault HttpWorker
  | .accept session =>
    if session ∈ k.sessions then .ok k
    else .ok { k with sessions := session :: k.sessions }
  | .beginHeaders session id request =>
    if request && decide (session ∈ k.sessions) then
      .ok (k.beginHeaders session id)
    else .ok k
  | .streamClose session id =>
    .ok (k.destroy fun s => s.session = session ∧ s.id = id)
  | .removeSession session =>
    .ok { k.destroy (fun s => s.session = session) with
      sessions := k.sessions.erase session }
  | .query session id call =>
    match k.getStream session id with
    | none => .ok k
    | some s => .ok { k with db := k.db.submit s.serial call }
  | .readable consumed ready poll restart => do
    let db ← k.db.step w (.readable consumed ready poll restart)
    .ok { k with db := db }
  | .writable flushes poll restart => do
    let db ← k.db.step w (.writable flushes poll restart)
    .ok { k with db := db }

/-! ## The invariant -/

variable {w : World} {k k' : HttpWorker}

/-- **The serials follow the streams.** -/
structure Inv (w : World) (k : HttpWorker) : Prop where
  aligned : k.db.Aligned w
  owned : k.db.Owned
  /-- What is alive is what exists. -/
  alive : ∀ serial, serial ∈ k.db.aliveStreams
    ↔ ∃ s ∈ k.streams, s.serial = serial
  /-- The serials are given out in turn. -/
  created : k.created = List.range k.db.nextStreamSerial
  known : ∀ s ∈ k.streams, s.serial ∈ k.created
  /-- No two streams share a serial. -/
  distinct : ∀ s ∈ k.streams, ∀ t ∈ k.streams, s.serial = t.serial → s = t

theorem Inv.start (first : Poll) : (start first).Inv w where
  aligned := Worker.Aligned.start first
  owned := Worker.Owned.restart ⟨Session.init, ∅, 0, [], []⟩ first
  alive := fun serial => iff_of_false (Finset.notMem_empty serial)
    fun ⟨_, hs, _⟩ => List.not_mem_nil hs
  created := rfl
  known := fun _ hs => absurd hs List.not_mem_nil
  distinct := fun _ hs => absurd hs List.not_mem_nil

/-- The session with the database serves. -/
theorem Inv.serves {db : Db.Worker} (h : k.Inv w) (haligned : db.Aligned w)
    (howned : db.Owned) (hserves : k.db.Serves db) :
    Inv w { k with db := db } where
  aligned := haligned
  owned := howned
  alive := by
    show ∀ serial, serial ∈ db.aliveStreams ↔ _
    rw [hserves.aliveStreams]
    exact h.alive
  created := by
    show k.created = List.range db.nextStreamSerial
    rw [hserves.nextStreamSerial]
    exact h.created
  known := h.known
  distinct := h.distinct

/-- **A new stream gets a serial that no stream has had.** -/
theorem Inv.beginHeaders (h : k.Inv w) (session : ℕ) (id : ℤ) :
    (k.beginHeaders session id).Inv w := by
  unfold HttpWorker.beginHeaders
  cases k.getStream session id with
  | some s => exact h
  | none =>
    -- a serial that was given out before is smaller
    have hfresh : ∀ s ∈ k.streams, s.serial ≠ k.db.nextStreamSerial := by
      intro s hs heq
      have hlt := h.known s hs
      rw [h.created, List.mem_range, heq] at hlt
      exact Nat.lt_irrefl _ hlt
    refine ⟨h.aligned.congr rfl rfl rfl rfl rfl,
      ⟨h.owned.queued, h.owned.dispatched⟩, fun serial => ?_, ?_, ?_, ?_⟩
    · show serial ∈ insert k.db.nextStreamSerial k.db.aliveStreams
        ↔ ∃ s ∈ k.streams ++ [_], _
      rw [Finset.mem_insert, h.alive]
      constructor
      · rintro (rfl | ⟨s, hs, rfl⟩)
        · exact ⟨_, List.mem_append_right _ List.mem_cons_self, rfl⟩
        · exact ⟨s, List.mem_append_left _ hs, rfl⟩
      · rintro ⟨s, hs, rfl⟩
        rcases List.mem_append.mp hs with hs | hs
        · exact Or.inr ⟨s, hs, rfl⟩
        · exact Or.inl (congrArg StreamObject.serial (List.mem_singleton.mp hs))
    · show k.created ++ [k.db.nextStreamSerial]
        = List.range (k.db.nextStreamSerial + 1)
      rw [h.created, List.range_succ]
    · intro s hs
      rcases List.mem_append.mp hs with hs | hs
      · exact List.mem_append_left _ (h.known s hs)
      · rw [List.mem_singleton.mp hs]
        exact List.mem_append_right _ List.mem_cons_self
    · intro s hs t ht heq
      rcases List.mem_append.mp hs with hs | hs <;>
        rcases List.mem_append.mp ht with ht | ht
      · exact h.distinct s hs t ht heq
      · rw [List.mem_singleton.mp ht] at heq
        exact absurd heq (hfresh s hs)
      · rw [List.mem_singleton.mp hs] at heq
        exact absurd heq.symm (hfresh t ht)
      · rw [List.mem_singleton.mp hs, List.mem_singleton.mp ht]

/-- What removing streams does to the worker. -/
theorem foldl_removeStream (l : List StreamObject) (db : Db.Worker) :
    ∃ alive, l.foldl (fun db s => db.removeStream s.serial) db
        = { db with aliveStreams := alive }
      ∧ ∀ serial, serial ∈ alive
        ↔ serial ∈ db.aliveStreams ∧ ∀ s ∈ l, s.serial ≠ serial := by
  induction l generalizing db with
  | nil =>
    exact ⟨db.aliveStreams, rfl, fun serial =>
      ⟨fun halive => ⟨halive, fun _ hs => absurd hs List.not_mem_nil⟩,
        And.left⟩⟩
  | cons s l ih =>
    obtain ⟨alive, hfold, halive⟩ := ih (db.removeStream s.serial)
    refine ⟨alive, hfold, fun serial => ?_⟩
    rw [halive, List.forall_mem_cons]
    show serial ∈ db.aliveStreams.erase s.serial ∧ _ ↔ _
    rw [Finset.mem_erase]
    exact ⟨fun ⟨⟨hne, hmem⟩, hrest⟩ => ⟨hmem, hne.symm, hrest⟩,
      fun ⟨hmem, hne, hrest⟩ => ⟨⟨hne.symm, hmem⟩, hrest⟩⟩

/-- Destroying streams calls nothing. -/
theorem calls_destroy (k : HttpWorker) (gone : StreamObject → Bool) :
    (k.destroy gone).db.calls = k.db.calls := by
  obtain ⟨alive, hfold, -⟩ :=
    foldl_removeStream (k.streams.filter gone) k.db
  unfold destroy
  rw [hfold]

/-- **A stream that is destroyed takes its own serial with it**, and no
other. -/
theorem Inv.destroy (h : k.Inv w) (gone : StreamObject → Bool) :
    (k.destroy gone).Inv w := by
  obtain ⟨alive, hfold, halive⟩ :=
    foldl_removeStream (k.streams.filter gone) k.db
  unfold HttpWorker.destroy
  rw [hfold]
  refine ⟨h.aligned.congr rfl rfl rfl rfl rfl,
    ⟨h.owned.queued, h.owned.dispatched⟩, fun serial => ?_, h.created,
    fun s hs => h.known s (List.mem_of_mem_filter hs),
    fun s hs t ht => h.distinct s (List.mem_of_mem_filter hs) t
      (List.mem_of_mem_filter ht)⟩
  show serial ∈ alive ↔ ∃ s ∈ k.streams.filter _, _
  rw [halive, h.alive]
  constructor
  · rintro ⟨⟨s, hs, rfl⟩, hleft⟩
    refine ⟨s, List.mem_filter.mpr ⟨hs, ?_⟩, rfl⟩
    rw [Bool.not_eq_true', ← Bool.not_eq_true]
    exact fun hgone => hleft s (List.mem_filter.mpr ⟨hs, hgone⟩) rfl
  · rintro ⟨s, hs, rfl⟩
    obtain ⟨hs, hstays⟩ := List.mem_filter.mp hs
    refine ⟨⟨s, hs, rfl⟩, fun t ht heq => ?_⟩
    obtain ⟨ht, hgone⟩ := List.mem_filter.mp ht
    rw [h.distinct t ht s hs heq] at hgone
    rw [hgone] at hstays
    exact Bool.noConfusion hstays

/-- **A step calls handlers of streams that exist only**: before the step, and
still after it. -/
structure Calls (k k' : HttpWorker) : Prop where
  calls : ∃ new, k'.db.calls = k.db.calls ++ new ∧ ∀ c ∈ new,
    ∃ s ∈ k.streams, s ∈ k'.streams
      ∧ k'.db.submitted[c.handler]? = some s.serial

theorem Calls.of_eq (h : k'.db.calls = k.db.calls) : k.Calls k' :=
  ⟨[], h.trans (List.append_nil _).symm, fun _ hc => absurd hc List.not_mem_nil⟩

/-- The handlers that the database's session calls belong to streams that
exist. -/
theorem Inv.calls {db : Db.Worker} (h : k.Inv w) (hserves : k.db.Serves db) :
    k.Calls { k with db := db } := by
  obtain ⟨new, hnew, hstreams⟩ := hserves.calls
  refine ⟨new, hnew, fun c hc => ?_⟩
  obtain ⟨stream, halive, hget⟩ := hstreams c hc
  obtain ⟨s, hs, rfl⟩ := (h.alive stream).mp halive
  exact ⟨s, hs, hs, hget⟩

/-- **Every step keeps the serials in line with the streams**, and calls
handlers of streams that exist only. -/
theorem Inv.step {e : Step} (h : k.Inv w) (hstep : k.step w e = .ok k') :
    k'.Inv w ∧ k.Calls k' := by
  cases e with
  | accept session =>
    rw [HttpWorker.step] at hstep
    split_ifs at hstep
    · cases hstep
      exact ⟨h, .of_eq rfl⟩
    · cases hstep
      exact ⟨⟨h.aligned, h.owned, h.alive, h.created, h.known, h.distinct⟩,
        .of_eq rfl⟩
  | beginHeaders session id request =>
    rw [HttpWorker.step] at hstep
    split_ifs at hstep
    · cases hstep
      refine ⟨h.beginHeaders session id, .of_eq ?_⟩
      unfold HttpWorker.beginHeaders
      cases k.getStream session id <;> rfl
    · cases hstep
      exact ⟨h, .of_eq rfl⟩
  | streamClose session id =>
    cases hstep
    exact ⟨h.destroy _, .of_eq (k.calls_destroy _)⟩
  | removeSession session =>
    cases hstep
    have hinv := h.destroy fun s => s.session = session
    exact ⟨⟨hinv.aligned, hinv.owned, hinv.alive, hinv.created, hinv.known,
      hinv.distinct⟩, .of_eq (k.calls_destroy _)⟩
  | query session id call =>
    rw [HttpWorker.step] at hstep
    cases hget : k.getStream session id with
    | none =>
      rw [hget] at hstep
      cases hstep
      exact ⟨h, .of_eq rfl⟩
    | some s =>
      rw [hget] at hstep
      cases hstep
      obtain ⟨new, hsubmits, -⟩ := k.db.submit_submits s.serial call
      exact ⟨h.serves (h.aligned.submits hsubmits) (h.owned.submits hsubmits)
        (.submits hsubmits), .of_eq hsubmits.calls⟩
  | readable consumed ready poll restart =>
    obtain ⟨db, hdb, hrest⟩ := Except.exists_of_bind_eq_ok hstep
    cases hrest
    obtain ⟨howned, hserves⟩ := h.owned.readable h.aligned hdb
    exact ⟨h.serves (h.aligned.step hdb) howned hserves, h.calls hserves⟩
  | writable flushes poll restart =>
    obtain ⟨db, hdb, hrest⟩ := Except.exists_of_bind_eq_ok hstep
    cases hrest
    obtain ⟨howned, hserves⟩ := h.owned.writable hdb
    exact ⟨h.serves (h.aligned.step hdb) howned hserves, h.calls hserves⟩

/-! ## Runs -/

/-- **The serials follow the streams.** However streams are opened and closed,
queries submitted and replies read: the serials that are alive are those of the
streams that exist; every stream was given its own serial, below the number of
streams constructed; and every handler that the next step calls belongs to a
query whose stream exists at that moment. -/
theorem serials_of_run {first : Poll} {steps : List Step}
    (h : Run.exec (step w) (start first) steps = .ok k) :
    (∀ serial, serial ∈ k.db.aliveStreams ↔ ∃ s ∈ k.streams, s.serial = serial)
      ∧ k.created.Nodup ∧ (∀ serial ∈ k.created, serial < k.created.length)
      ∧ (∀ s ∈ k.streams, s.serial ∈ k.created)
      ∧ (∀ s ∈ k.streams, ∀ t ∈ k.streams, s.serial = t.serial → s = t)
      ∧ ∀ e k', k.step w e = .ok k' → k.Calls k' := by
  have hinv : k.Inv w :=
    Run.invariant_of_step (fun _ _ _ hk hstep => (hk.step hstep).1)
      (Inv.start first) h
  refine ⟨hinv.alive, hinv.created ▸ List.nodup_range, ?_, hinv.known,
    hinv.distinct, fun e k' hstep => (hinv.step hstep).2⟩
  rw [hinv.created, List.length_range]
  exact fun serial hserial => List.mem_range.mp hserial

/-- Two sessions whose streams have the same id: the stream of the first is
reset while its query waits, the second one's handler is called. -/
def reusedIdRun : List Step :=
  [.accept 10, .accept 20, .beginHeaders 10 1 true, .beginHeaders 20 1 true,
    .readable true 0 ⟨0, .ok true true⟩ ⟨0, .failed⟩,
    .query 10 1 (.query []), .query 20 1 (.query []),
    .writable [.done] ⟨0, .failed⟩ ⟨0, .failed⟩, .streamClose 10 1,
    .readable true 5 ⟨0, .failed⟩ ⟨0, .failed⟩]

theorem reusedIdRun_serials :
    ∃ k, Run.exec (step .chatty) (start ⟨0, .reading 3⟩) reusedIdRun = .ok k
      ∧ (k.streams, k.db.calls.map HandlerCall.handler) = ([⟨20, 1, 1⟩], [1])
      ∧ (∀ serial, serial ∈ k.db.aliveStreams
        ↔ ∃ s ∈ k.streams, s.serial = serial)
      ∧ k.created.Nodup ∧ (∀ serial ∈ k.created, serial < k.created.length)
      ∧ (∀ s ∈ k.streams, s.serial ∈ k.created)
      ∧ (∀ s ∈ k.streams, ∀ t ∈ k.streams, s.serial = t.serial → s = t)
      ∧ ∀ e k', k.step .chatty e = .ok k' → k.Calls k' := by
  obtain ⟨k, hk, hcalls⟩ := Run.exists_of_map_exec (show (Run.exec
    (step .chatty) (start ⟨0, .reading 3⟩) reusedIdRun).map
      (fun k => (k.streams, k.db.calls.map HandlerCall.handler))
        = .ok ([⟨20, 1, 1⟩], [1]) by decide)
  exact ⟨k, hk, hcalls, serials_of_run hk⟩

end HttpWorker
