import Harmony.Run
import Harmony.StringView

/-!
# The body of a request

The session hands the body of a request over in chunks (`handleData`), and
at the end it says so (`handleBody`). A handler takes it as a whole, by
`on_body(cb)` or by awaiting `body()`, or chunk by chunk, by `on_data(cb)` or
by awaiting `data()` again and again. What comes before anyone asked is
kept in `body_`.

Each function is a step on the members of the request that yields what a
consumer gets from it, if anything. A coroutine that suspended itself in
`body()` or `data()` is known by its handle only, and the handle stays in
the request after the coroutine has finished (`Handle.finished`); resuming it
then is the fault `Fault.resumeDone`.

The whole body arrives exactly once for every moment of the registration,
except for a callback that is registered after the end
(`HttpRequest.receivesOnce_iff`).
-/

/-- What a coroutine handle stands for. -/
inductive Handle where
  | null
  | suspended
  /-- The coroutine has run to its end; its frame may be gone. -/
  | finished
  deriving DecidableEq, Repr

/-- **What a consumer gets.** -/
inductive Delivery where
  /-- The whole body, by `on_body` or `body()`. -/
  | body (value : Bytes)
  /-- A piece of it, by `on_data` or `data()`. -/
  | data (value : Bytes)
  deriving DecidableEq, Repr

/-- **A request**, as far as its body goes. Of the callbacks it matters here
whether they are set. -/
structure HttpRequest where
  body : Bytes
  data : Bytes
  onBodyCb : Bool
  onDataCb : Bool
  bodyCoro : Handle
  dataCoro : Handle
  dataChunkMode : Bool
  dataReady : Bool
  buffered : Bool
  deriving DecidableEq, Repr

namespace HttpRequest

/-- What a call leaves behind, and what it delivers. -/
abbrev Result := Except Fault (HttpRequest × Option Delivery)

/-- The constructor. -/
def new : HttpRequest where
  body := []
  data := []
  onBodyCb := false
  onDataCb := false
  bodyCoro := .null
  dataCoro := .null
  dataChunkMode := false
  dataReady := false
  buffered := false

/-- `HttpRequest::add_to_body`. -/
def addToBody (r : HttpRequest) (str : Bytes) : HttpRequest :=
  { r with body := r.body ++ str }

/-- **`HttpRequest::handle_data`.** -/
def handleData (r : HttpRequest) (str : Bytes) (eof : Bool) : Result :=
  -- ignore empty string, empty string is used to signal eof
  if str = [] ∧ eof = false then
    .ok (r, none)
  else if eof = true ∧ str ≠ [] then
    .error .assertion
  else
    let kept := { r with buffered := true }.addToBody str
    if r.dataChunkMode then
      let r := { r with data := str }
      match r.dataCoro with
      | .suspended => .ok ({ r with dataCoro := .finished }, some (.data str))
      | .finished => .error .resumeDone
      | .null =>
        if r.onDataCb then .ok (r, some (.data str))
        else .ok ({ kept with data := str }, none)
    else
      .ok (kept, none)

/-- **`HttpRequest::handle_body`.** -/
def handleBody (r : HttpRequest) : Result :=
  if r.dataChunkMode then
    r.handleData [] true
  else
    match r.bodyCoro with
    | .suspended => .ok ({ r with bodyCoro := .finished }, some (.body r.body))
    | .finished => .error .resumeDone
    | .null =>
      if r.onBodyCb then .ok (r, some (.body r.body))
      -- data is ready, no one handled it yet
      else .ok ({ r with dataReady := true }, none)

/-- `HttpRequest::on_body`. -/
def onBody (r : HttpRequest) : HttpRequest × Option Delivery :=
  ({ r with dataChunkMode := false, onBodyCb := true }, none)

/-- `HttpRequest::on_data`. -/
def onData (r : HttpRequest) : HttpRequest × Option Delivery :=
  let r := { r with dataChunkMode := true, onDataCb := true }
  if r.buffered then ({ r with buffered := false }, some (.data r.body))
  else (r, none)

/-- `HttpRequest::body`, up to where the awaiting handler goes on. -/
def awaitBody (r : HttpRequest) : HttpRequest × Option Delivery :=
  let r := { r with dataChunkMode := false }
  if r.dataReady then ({ r with bodyCoro := .finished }, some (.body r.body))
  else ({ r with bodyCoro := .suspended }, none)

/-- `HttpRequest::data`, up to where the awaiting handler goes on. -/
def awaitData (r : HttpRequest) : HttpRequest × Option Delivery :=
  let r := { r with dataChunkMode := true }
  -- data may be buffered before coroutine/callback is registered
  if r.buffered then
    ({ r with buffered := false, dataCoro := .finished }, some (.data r.body))
  else
    let r := { r with body := [] }
    -- the body was returned before: return eof now
    if r.dataReady then ({ r with dataCoro := .finished }, some (.data []))
    else ({ r with dataCoro := .suspended }, none)

end HttpRequest

/-- **What happens to a request**: the session hands over a chunk or ends
the body, or the handler calls one of the four functions. -/
inductive BodyEvent where
  | chunk (str : Bytes)
  | finish
  | onBody
  | awaitBody
  | onData
  | awaitData
  deriving DecidableEq, Repr

namespace HttpRequest

/-- One event. -/
def step (r : HttpRequest) : BodyEvent → Result
  | .chunk str => r.handleData str false
  | .finish => r.handleBody
  | .onBody => .ok r.onBody
  | .awaitBody => .ok r.awaitBody
  | .onData => .ok r.onData
  | .awaitData => .ok r.awaitData

/-- A request and what its consumer has got so far. -/
abbrev Received := HttpRequest × List Delivery

/-- One event, with the deliveries collected. -/
def collect (s : Received) (e : BodyEvent) : Except Fault Received :=
  match s.1.step e with
  | .error f => .error f
  | .ok (r, d) => .ok (r, s.2 ++ d.toList)

/-- A body as the session hands it over. -/
def arrivals (chunks : List Bytes) : List BodyEvent :=
  chunks.map .chunk ++ [.finish]

/-! ## Consumers of the whole body -/

/-- The two kinds of consumer of the whole body. -/
inductive BodyConsumer where
  | callback
  | coroutine
  deriving DecidableEq, Repr

/-- The call by which a consumer registers. -/
def BodyConsumer.register : BodyConsumer → BodyEvent
  | callback => .onBody
  | coroutine => .awaitBody

/-- The body arrives, and after `k` of its parts the consumer registers. -/
def schedule (chunks : List Bytes) (k : ℕ) (c : BodyConsumer) :
    List BodyEvent :=
  (arrivals chunks).take k ++ c.register :: (arrivals chunks).drop k

/-- **The consumer receives the body exactly once**: the run ends, and what
was delivered is one body, that of all chunks in order. -/
def ReceivesOnce (events : List BodyEvent) (chunks : List Bytes) : Prop :=
  ∃ r, Run.exec collect (new, []) events = .ok (r, [.body chunks.flatten])

/-- Without a consumer of pieces, chunks are kept. -/
theorem exec_chunks {r : HttpRequest} (h : r.dataChunkMode = false)
    (chunks : List Bytes) (got : List Delivery) :
    ∃ b, Run.exec collect (r, got) (chunks.map .chunk)
      = .ok ({ r with body := r.body ++ chunks.flatten, buffered := b },
          got) := by
  induction chunks generalizing r with
  | nil =>
    refine ⟨r.buffered, ?_⟩
    rw [List.flatten_nil, List.append_nil]
    rfl
  | cons str chunks ih =>
    by_cases hstr : str = []
    · obtain ⟨b, hb⟩ := ih h
      refine ⟨b, ?_⟩
      have hstep : collect (r, got) (.chunk str) = .ok (r, got) := by
        simp [collect, step, handleData, hstr]
      rw [List.map_cons, Run.exec_cons_of_ok hstep, hb, hstr]
      rfl
    · have hstep : collect (r, got) (.chunk str)
          = .ok ({ r with buffered := true }.addToBody str, got) := by
        simp [collect, step, handleData, hstr, h]
      obtain ⟨b, hb⟩ := ih (r := { r with buffered := true }.addToBody str) h
      refine ⟨b, ?_⟩
      rw [List.map_cons, Run.exec_cons_of_ok hstep, hb, List.flatten_cons,
        ← List.append_assoc]
      rfl

/-- The request once a consumer of the whole body has registered before the
end. -/
def registered (r : HttpRequest) : BodyConsumer → HttpRequest
  | .callback => { r with dataChunkMode := false, onBodyCb := true }
  | .coroutine => { r with dataChunkMode := false, bodyCoro := .suspended }

/-- Before the end a consumer registers and gets nothing. -/
theorem collect_register {r : HttpRequest} (h : r.dataReady = false)
    (got : List Delivery) (c : BodyConsumer) :
    collect (r, got) c.register = .ok (r.registered c, got) := by
  cases c with
  | callback =>
    show Except.ok (_, got ++ []) = _
    rw [List.append_nil]
    rfl
  | coroutine =>
    simp [collect, step, BodyConsumer.register, awaitBody, h, registered]

/-- With the end, a registered consumer gets the body. -/
theorem collect_finish {r : HttpRequest} (h : r.bodyCoro = .null)
    (got : List Delivery) (c : BodyConsumer) :
    ∃ r', collect (r.registered c, got) .finish
      = .ok (r', got ++ [.body r.body]) := by
  cases c with
  | callback =>
    refine ⟨r.registered .callback, ?_⟩
    simp [collect, step, handleBody, registered, h]
  | coroutine => exact ⟨_, rfl⟩

/-- **A consumer that registered before the end gets the body with it.** -/
theorem receivesOnce_of_le {chunks : List Bytes} {k : ℕ}
    (hk : k ≤ chunks.length) (c : BodyConsumer) :
    ReceivesOnce (schedule chunks k c) chunks := by
  have htake : (arrivals chunks).take k = (chunks.take k).map .chunk := by
    rw [arrivals, List.take_append_of_le_length (by simpa using hk),
      List.map_take]
  have hdrop : (arrivals chunks).drop k
      = (chunks.drop k).map .chunk ++ [.finish] := by
    rw [arrivals, List.drop_append_of_le_length (by simpa using hk),
      List.map_drop]
  obtain ⟨b, hbefore⟩ := exec_chunks (r := new) rfl (chunks.take k) []
  obtain ⟨b', hafter⟩ := exec_chunks
    (r := { new with
      body := new.body ++ (chunks.take k).flatten, buffered := b }.registered c)
    (by cases c <;> rfl) (chunks.drop k) []
  have hkept : ∀ (r : HttpRequest) (t : Bytes) (b : Bool),
      { r.registered c with body := (r.registered c).body ++ t, buffered := b }
        = { r with body := r.body ++ t, buffered := b }.registered c := by
    intro r t b
    cases c <;> rfl
  rw [hkept] at hafter
  obtain ⟨r', hfinish⟩ := collect_finish
    (r := { new with
      body := (new.body ++ (chunks.take k).flatten) ++ (chunks.drop k).flatten
      buffered := b' }) rfl [] c
  refine ⟨r', ?_⟩
  rw [schedule, htake, hdrop, Run.exec_append_of_ok hbefore,
    Run.exec_cons_of_ok (collect_register rfl [] c),
    Run.exec_append_of_ok hafter]
  refine (Run.exec_cons_of_ok hfinish []).trans ?_
  rw [Run.exec_nil]
  show Except.ok (r', [Delivery.body (([] ++ _) ++ _)]) = _
  rw [List.nil_append, ← List.flatten_append, List.take_append_drop]

/-- After the end, a coroutine still gets the body, and a callback gets
nothing. -/
theorem exec_schedule_of_lt {chunks : List Bytes} {k : ℕ}
    (hk : chunks.length < k) (c : BodyConsumer) :
    ∃ r, Run.exec collect (new, []) (schedule chunks k c)
      = .ok (r, match c with
        | .callback => []
        | .coroutine => [.body chunks.flatten]) := by
  have hlen : (arrivals chunks).length ≤ k := by
    rw [arrivals, List.length_append, List.length_map]
    exact hk
  obtain ⟨b, hchunks⟩ := exec_chunks (r := new) rfl chunks []
  rw [schedule, List.take_of_length_le hlen, List.drop_eq_nil_of_le hlen,
    arrivals, List.append_assoc, Run.exec_append_of_ok hchunks]
  cases c with
  | callback => exact ⟨_, rfl⟩
  | coroutine => exact ⟨_, rfl⟩

/-- **The body is received exactly once, but for late callbacks.** -/
theorem receivesOnce_iff (chunks : List Bytes) (k : ℕ) (c : BodyConsumer) :
    ReceivesOnce (schedule chunks k c) chunks
      ↔ ¬ (c = .callback ∧ chunks.length < k) := by
  rcases Nat.lt_or_ge chunks.length k with hlt | hle
  · obtain ⟨r, hr⟩ := exec_schedule_of_lt hlt c
    rw [ReceivesOnce, hr]
    cases c with
    | callback =>
      refine iff_of_false ?_ (fun h => h ⟨rfl, hlt⟩)
      rintro ⟨r', h⟩
      cases h
    | coroutine => exact iff_of_true ⟨r, rfl⟩ (by simp)
  · exact iff_of_true (receivesOnce_of_le hle c) (fun h => hle.not_gt h.2)

/-- **A callback that is registered after the end waits forever.** -/
theorem lateCallback_not_receivesOnce :
    ¬ ∀ (chunks : List Bytes) (k : ℕ) (c : BodyConsumer),
      ReceivesOnce (schedule chunks k c) chunks := by
  intro h
  obtain ⟨r, hr⟩ := h [bytes "hello"] 2 .callback
  cases hr

end HttpRequest
