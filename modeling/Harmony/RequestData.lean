import Harmony.HttpRequest

/-!
# The body of a request, piece by piece

A consumer of pieces either registers a callback once, or awaits `data()`
again and again until it gets an empty value. The second kind has a state of
its own (`DataStatus`): it waits inside a call, it has got a piece
and is busy with something else, or it has got the end.

While such a consumer is busy the request still holds the handle of its last
call, which has finished; whatever arrives then resumes it. And a callback
that is registered after the end is told what was kept, but not that there
is no more. In all other schedules the pieces are the body and the end comes
once: `DataListener.getsAll_iff_attentive`.
-/

/-- **What a consumer of pieces is doing.** -/
inductive DataStatus where
  /-- It has not asked yet. -/
  | idle
  /-- It is suspended in `data()`. -/
  | waiting
  /-- It has got a piece and will call `data()` again. -/
  | busy
  /-- It has got the empty value. -/
  | done
  /-- It has registered a callback. -/
  | registered
  deriving DecidableEq, Repr

/-- **A consumer of pieces and the request it listens to.** -/
structure DataListener where
  request : HttpRequest
  /-- What the consumer is doing. -/
  status : DataStatus
  /-- What it has got. -/
  got : List Bytes
  /-- What has arrived. -/
  arrived : Bytes
  /-- Whether the end has arrived. -/
  ended : Bool

namespace DataListener

/-- Before anything has happened. -/
def start : DataListener := ⟨.new, .idle, [], [], false⟩

/-- What a delivery says. -/
def valueOf : Delivery → Bytes
  | .body value => value
  | .data value => value

/-- The consumer gets a value: an empty one ends the calls of `data()`. -/
def receive (s : DataListener) (value : Bytes) : DataListener :=
  { s with
    got := s.got ++ [value]
    status :=
      if s.status = .registered then .registered
      else if value = [] then .done
      else .busy }

/-- What a call of the request does to the listener. -/
def after (s : DataListener) (r : HttpRequest) :
    Option Delivery → DataListener
  | none => { s with request := r }
  | some d => { s with request := r }.receive (valueOf d)

/-- **One event.** A consumer that waits, is done or has registered calls
nothing, and one that calls `data()` registers nothing. -/
def step (s : DataListener) : BodyEvent → Except Fault DataListener
  | .chunk str => do
    let (r, d) ← s.request.handleData str false
    .ok ({ s with arrived := s.arrived ++ str }.after r d)
  | .finish => do
    let (r, d) ← s.request.handleBody
    .ok ({ s with ended := true }.after r d)
  | .onData =>
    if s.status = .idle then
      .ok ({ s with status := .registered }.after s.request.onData.1
        s.request.onData.2)
    else .ok s
  | .awaitData =>
    if s.status = .idle ∨ s.status = .busy then
      .ok ({ s with status := .waiting }.after s.request.awaitData.1
        s.request.awaitData.2)
    else .ok s
  | .onBody => .ok s
  | .awaitBody => .ok s

/-- Whether the session caused the event. -/
def isArrival : BodyEvent → Bool
  | .chunk _ => true
  | .finish => true
  | _ => false

/-- **The schedules in question**: the chunks arrive in order, none of them
empty, and then the end; the consumer registers a callback once, or calls
`data()` only and does not stop before it is done. -/
structure Schedule (chunks : List Bytes) (es : List BodyEvent) : Prop where
  nonempty : ∀ c ∈ chunks, c ≠ []
  arrive : es.filter isArrival = HttpRequest.arrivals chunks
  consume : es.filter (fun e => !isArrival e) = [.onData] ∨
    ∀ e ∈ es, isArrival e ∨ e = .awaitData
  complete : ∀ s, Run.exec step start es = .ok s →
    s.status ≠ .idle ∧ s.status ≠ .busy

/-- Pieces, none of them empty, that make up a text. -/
def Pieces (parts : List Bytes) (text : Bytes) : Prop :=
  (∀ p ∈ parts, p ≠ []) ∧ parts.flatten = text

/-- **The consumer gets it all**: no coroutine is resumed after it has
finished, and the values are the body in pieces, followed by one empty
value. -/
def GetsAll (es : List BodyEvent) (chunks : List Bytes) : Prop :=
  ∃ s, Run.exec step start es = .ok s ∧
    ∃ parts, s.got = parts ++ [[]] ∧ Pieces parts chunks.flatten

/-- **The consumer is attentive**: nothing arrives while it is busy between
two calls of `data()`, and a callback is registered before the end. -/
def Attentive (s : DataListener) : BodyEvent → Prop
  | .chunk _ => s.status ≠ .busy
  | .finish => s.status ≠ .busy
  | .onData => s.status = .idle → s.ended = false
  | _ => True

instance (s : DataListener) : (e : BodyEvent) → Decidable (s.Attentive e)
  | .chunk _ => inferInstanceAs (Decidable (_ ≠ _))
  | .finish => inferInstanceAs (Decidable (_ ≠ _))
  | .onData => inferInstanceAs (Decidable (_ → _))
  | .awaitData => inferInstanceAs (Decidable True)
  | .onBody => inferInstanceAs (Decidable True)
  | .awaitBody => inferInstanceAs (Decidable True)

/-- What the session may do: chunks are not empty, and nothing comes after
the end. -/
def Legal (s : DataListener) : BodyEvent → Prop
  | .chunk str => s.ended = false ∧ str ≠ []
  | .finish => s.ended = false
  | _ => True

/-- A request that nobody has asked for its body. -/
def kept (arrived : Bytes) (ended : Bool) : HttpRequest :=
  { HttpRequest.new with
    body := arrived
    buffered := decide (arrived ≠ [])
    dataReady := ended }

/-- **What holds while the consumer is attentive.** -/
def Inv (s : DataListener) : Prop :=
  match s.status with
  | .idle => s.request = kept s.arrived s.ended ∧ s.got = []
  | .waiting =>
    s.request.dataChunkMode = true ∧ s.request.dataCoro = .suspended
      ∧ s.request.buffered = false ∧ s.request.dataReady = false
      ∧ s.ended = false ∧ Pieces s.got s.arrived
  | .busy =>
    s.request.dataCoro = .finished ∧ s.request.dataChunkMode = true
      ∧ s.request.buffered = false ∧ s.request.dataReady = s.ended
      ∧ Pieces s.got s.arrived
  | .done =>
    s.ended = true ∧ ∃ parts, s.got = parts ++ [[]] ∧ Pieces parts s.arrived
  | .registered =>
    s.request.dataChunkMode = true ∧ s.request.dataCoro = .null
      ∧ s.request.onDataCb = true ∧
      if s.ended then ∃ parts, s.got = parts ++ [[]] ∧ Pieces parts s.arrived
      else Pieces s.got s.arrived

theorem inv_start : start.Inv := ⟨rfl, rfl⟩

/-- One more piece. -/
theorem Pieces.snoc {parts : List Bytes} {text str : Bytes}
    (h : Pieces parts text) (hstr : str ≠ []) :
    Pieces (parts ++ [str]) (text ++ str) := by
  refine ⟨?_, ?_⟩
  · intro p hp
    rcases List.mem_append.mp hp with hold | hnew
    · exact h.1 p hold
    · rw [List.mem_singleton.mp hnew]
      exact hstr
  · rw [List.flatten_append, h.2, List.flatten_singleton]

/-- **A chunk arrives** while the consumer is not busy. -/
theorem inv_chunk {s : DataListener} (hinv : s.Inv) {str : Bytes}
    (hstatus : s.status ≠ .busy) (hended : s.ended = false) (hstr : str ≠ []) :
    ∃ s', s.step (.chunk str) = .ok s' ∧ s'.Inv := by
  obtain ⟨r, status, got, arrived, ended⟩ := s
  dsimp only at hended
  subst hended
  cases status with
  | idle =>
    obtain ⟨hr, hgot⟩ := hinv
    dsimp only at hr hgot
    subst hr hgot
    refine ⟨⟨{ HttpRequest.new with body := arrived ++ str, buffered := true },
      .idle, [], arrived ++ str, false⟩, ?_, ?_, rfl⟩
    · simp [step, kept, HttpRequest.handleData, hstr, HttpRequest.new, after,
        HttpRequest.addToBody]
    · simp [kept, hstr, HttpRequest.new]
  | waiting =>
    obtain ⟨hmode, hcoro, hbuf, hready, -, hpieces⟩ := hinv
    dsimp only at hmode hcoro hbuf hready hpieces
    refine ⟨⟨{ r with data := str, dataCoro := .finished }, .busy,
      got ++ [str], arrived ++ str, false⟩, ?_, ?_⟩
    · simp [step, HttpRequest.handleData, hstr, hmode, hcoro, after, receive,
        valueOf]
    · exact ⟨rfl, hmode, hbuf, hready, hpieces.snoc hstr⟩
  | busy => exact absurd rfl hstatus
  | done => exact absurd hinv.1 (by simp)
  | registered =>
    obtain ⟨hmode, hcoro, hcb, hpieces⟩ := hinv
    dsimp only at hmode hcoro hcb hpieces
    refine ⟨⟨{ r with data := str }, .registered, got ++ [str],
      arrived ++ str, false⟩, ?_, ?_⟩
    · simp [step, HttpRequest.handleData, hstr, hmode, hcoro, hcb, after,
        receive, valueOf]
    · exact ⟨hmode, hcoro, hcb, Pieces.snoc hpieces hstr⟩

/-- **The end arrives** while the consumer is not busy. -/
theorem inv_finish {s : DataListener} (hinv : s.Inv)
    (hstatus : s.status ≠ .busy) (hended : s.ended = false) :
    ∃ s', s.step .finish = .ok s' ∧ s'.Inv := by
  obtain ⟨r, status, got, arrived, ended⟩ := s
  dsimp only at hended
  subst hended
  cases status with
  | idle =>
    obtain ⟨hr, hgot⟩ := hinv
    dsimp only at hr hgot
    subst hr hgot
    exact ⟨_, rfl, rfl, rfl⟩
  | waiting =>
    obtain ⟨hmode, hcoro, hbuf, hready, -, hpieces⟩ := hinv
    dsimp only at hmode hcoro hbuf hready hpieces
    refine ⟨⟨{ r with data := [], dataCoro := .finished }, .done,
      got ++ [[]], arrived, true⟩, ?_, rfl, got, rfl, hpieces⟩
    simp [step, HttpRequest.handleBody, HttpRequest.handleData, hmode, hcoro,
      after, receive, valueOf]
  | busy => exact absurd rfl hstatus
  | done => exact absurd hinv.1 (by simp)
  | registered =>
    obtain ⟨hmode, hcoro, hcb, hpieces⟩ := hinv
    dsimp only at hmode hcoro hcb hpieces
    refine ⟨⟨{ r with data := [] }, .registered, got ++ [[]], arrived, true⟩,
      ?_, hmode, hcoro, hcb, got, rfl, hpieces⟩
    simp [step, HttpRequest.handleBody, HttpRequest.handleData, hmode, hcoro,
      hcb, after, receive, valueOf]

/-- **The callback is registered** before the end: it gets what was kept. -/
theorem inv_onData {s : DataListener} (hinv : s.Inv)
    (hatt : s.status = .idle → s.ended = false) :
    ∃ s', s.step .onData = .ok s' ∧ s'.Inv := by
  obtain ⟨r, status, got, arrived, ended⟩ := s
  cases status with
  | idle =>
    cases hatt rfl
    obtain ⟨hr, hgot⟩ := hinv
    dsimp only at hr hgot
    subst hr hgot
    by_cases harrived : arrived = []
    · subst harrived
      refine ⟨_, rfl, rfl, rfl, rfl, ?_, rfl⟩
      exact fun p hp => absurd hp List.not_mem_nil
    · refine ⟨⟨{ HttpRequest.new with
        body := arrived, dataChunkMode := true, onDataCb := true },
        .registered, [arrived], arrived, false⟩, ?_, rfl, rfl, rfl, ?_, ?_⟩
      · simp [step, kept, HttpRequest.onData, harrived, HttpRequest.new, after,
          receive, valueOf]
      · exact fun p hp => List.mem_singleton.mp hp ▸ harrived
      · exact List.flatten_singleton
  | waiting => exact ⟨_, rfl, hinv⟩
  | busy => exact ⟨_, rfl, hinv⟩
  | done => exact ⟨_, rfl, hinv⟩
  | registered => exact ⟨_, rfl, hinv⟩

/-- **The consumer calls `data()`**: it gets what was kept, or the end, or
waits. -/
theorem inv_awaitData {s : DataListener} (hinv : s.Inv) :
    ∃ s', s.step .awaitData = .ok s' ∧ s'.Inv := by
  obtain ⟨r, status, got, arrived, ended⟩ := s
  cases status with
  | idle =>
    obtain ⟨hr, hgot⟩ := hinv
    dsimp only at hr hgot
    subst hr hgot
    by_cases harrived : arrived = []
    · subst harrived
      cases ended with
      | false =>
        refine ⟨_, rfl, rfl, rfl, rfl, rfl, rfl, ?_, rfl⟩
        exact fun p hp => absurd hp List.not_mem_nil
      | true =>
        refine ⟨_, rfl, rfl, [], rfl, ?_, rfl⟩
        exact fun p hp => absurd hp List.not_mem_nil
    · refine ⟨⟨{ HttpRequest.new with
        body := arrived, dataChunkMode := true, dataReady := ended
        dataCoro := .finished }, .busy, [arrived], arrived, ended⟩, ?_, rfl,
        rfl, rfl, rfl, ?_, ?_⟩
      · simp [step, kept, HttpRequest.awaitData, harrived, HttpRequest.new, after,
          receive, valueOf]
      · exact fun p hp => List.mem_singleton.mp hp ▸ harrived
      · exact List.flatten_singleton
  | waiting => exact ⟨_, rfl, hinv⟩
  | busy =>
    obtain ⟨hcoro, hmode, hbuf, hready, hpieces⟩ := hinv
    dsimp only at hcoro hmode hbuf hready hpieces
    cases ended with
    | false =>
      refine ⟨⟨{ r with
        dataChunkMode := true, body := [], dataCoro := .suspended }, .waiting,
        got, arrived, false⟩, ?_, rfl, rfl, hbuf, hready, rfl, hpieces⟩
      simp [step, HttpRequest.awaitData, hbuf, hready, after]
    | true =>
      refine ⟨⟨{ r with
        dataChunkMode := true, body := [], dataCoro := .finished }, .done,
        got ++ [[]], arrived, true⟩, ?_, rfl, got, rfl, hpieces⟩
      simp [step, HttpRequest.awaitData, hbuf, hready, after, receive, valueOf]
  | done => exact ⟨_, rfl, hinv⟩
  | registered => exact ⟨_, rfl, hinv⟩

/-- **An attentive consumer never makes the session fail**, and one event
keeps the invariant. -/
theorem inv_step (s : DataListener) (e : BodyEvent) (hinv : s.Inv)
    (hguard : s.Attentive e ∧ s.Legal e) :
    ∃ s', s.step e = .ok s' ∧ s'.Inv := by
  obtain ⟨hatt, hlegal⟩ := hguard
  cases e with
  | chunk str => exact inv_chunk hinv hatt hlegal.1 hlegal.2
  | finish => exact inv_finish hinv hatt hlegal
  | onData => exact inv_onData hinv hatt
  | awaitData => exact inv_awaitData hinv
  | onBody => exact ⟨s, rfl, hinv⟩
  | awaitBody => exact ⟨s, rfl, hinv⟩

/-! ## What the session does in a schedule -/

/-- The history of a listener is kept by its calls. -/
@[simp] theorem arrived_after (s : DataListener) (r : HttpRequest)
    (d : Option Delivery) : (s.after r d).arrived = s.arrived := by
  cases d <;> rfl

@[simp] theorem ended_after (s : DataListener) (r : HttpRequest)
    (d : Option Delivery) : (s.after r d).ended = s.ended := by
  cases d <;> rfl

/-- The bytes an event brings. -/
def brings : BodyEvent → Bytes
  | .chunk str => str
  | _ => []

/-- One event adds what it brings. -/
theorem history_of_step {s s' : DataListener} {e : BodyEvent}
    (h : s.step e = .ok s') :
    s'.arrived = s.arrived ++ brings e
      ∧ s'.ended = (s.ended || decide (e = .finish)) := by
  cases e with
  | chunk str =>
    rw [step] at h
    obtain ⟨r, -, h⟩ := Except.exists_of_bind_eq_ok h
    cases h
    simp [brings]
  | finish =>
    rw [step] at h
    obtain ⟨r, -, h⟩ := Except.exists_of_bind_eq_ok h
    cases h
    simp [brings]
  | onData =>
    rw [step] at h
    split_ifs at h
    · cases h
      simp [brings]
    · cases h
      simp [brings]
  | awaitData =>
    rw [step] at h
    split_ifs at h
    · cases h
      simp [brings]
    · cases h
      simp [brings]
  | onBody =>
    cases h
    simp [brings]
  | awaitBody =>
    cases h
    simp [brings]

/-- **A body that arrives as it should is legal**: what is still to come are
chunks and then the end, or nothing if the end has come. -/
theorem legal_of_arrive (es : List BodyEvent) (s : DataListener)
    (chunks : List Bytes) (hnonempty : ∀ c ∈ chunks, c ≠ [])
    (harrive : es.filter isArrival
      = if s.ended then [] else HttpRequest.arrivals chunks) :
    Run.Throughout step Legal s es := by
  induction es generalizing s chunks with
  | nil => trivial
  | cons e es ih =>
    by_cases he : isArrival e = true
    · rw [List.filter_cons_of_pos he] at harrive
      cases hended : s.ended with
      | true =>
        rw [hended] at harrive
        cases harrive
      | false =>
        rw [hended] at harrive
        cases chunks with
        | nil =>
          -- the end
          obtain ⟨rfl, hrest⟩ := List.cons.inj harrive
          refine ⟨hended, fun s' hs => ih s' [] hnonempty ?_⟩
          rw [(history_of_step hs).2, hrest, hended]
          rfl
        | cons c chunks =>
          obtain ⟨rfl, hrest⟩ := List.cons.inj harrive
          refine ⟨⟨hended, hnonempty c List.mem_cons_self⟩, fun s' hs =>
            ih s' chunks (fun c' hc' =>
              hnonempty c' (List.mem_cons_of_mem c hc')) ?_⟩
          rw [(history_of_step hs).2, hrest, hended]
          rfl
    · rw [List.filter_cons_of_neg he] at harrive
      have hfinish : e ≠ .finish := fun h => he (h ▸ rfl)
      refine ⟨?_, fun s' hs => ih s' chunks hnonempty ?_⟩
      · cases e with
        | chunk str => exact absurd rfl he
        | finish => exact absurd rfl he
        | onBody => trivial
        | awaitBody => trivial
        | onData => trivial
        | awaitData => trivial
      · rw [(history_of_step hs).2, harrive, decide_eq_false hfinish,
          Bool.or_false]

/-- What has arrived after a run, and whether it has ended. -/
theorem history_of_exec {es : List BodyEvent} {s t : DataListener}
    (h : Run.exec step s es = .ok t) :
    t.arrived = s.arrived ++ ((es.filter isArrival).map brings).flatten
      ∧ t.ended = (s.ended || decide (.finish ∈ es.filter isArrival)) := by
  induction es generalizing s with
  | nil =>
    cases h
    simp
  | cons e es ih =>
    obtain ⟨s', hs, hrest⟩ := Run.step_of_exec_cons h
    obtain ⟨harrived, hended⟩ := ih hrest
    obtain ⟨harrived', hended'⟩ := history_of_step hs
    rw [harrived, hended, harrived', hended']
    cases e <;> simp [isArrival, brings, List.filter_cons]

/-- After a schedule the whole body and its end have arrived. -/
theorem history_of_schedule {chunks : List Bytes} {es : List BodyEvent}
    (harrive : es.filter isArrival = HttpRequest.arrivals chunks)
    {t : DataListener} (h : Run.exec step start es = .ok t) :
    t.arrived = chunks.flatten ∧ t.ended = true := by
  obtain ⟨harrived, hended⟩ := history_of_exec h
  rw [harrived, hended, harrive, HttpRequest.arrivals]
  have hbrings : (chunks.map BodyEvent.chunk).map brings = chunks := by
    rw [List.map_map]
    exact List.map_id _
  constructor
  · rw [List.map_append, hbrings]
    simp [start, brings]
  · simp

/-! ## Consumers that are not attentive -/

/-- **What arrives while the consumer is busy resumes a finished
coroutine.** -/
theorem step_of_busy {s : DataListener} (hinv : s.Inv)
    (hstatus : s.status = .busy) {e : BodyEvent} (he : isArrival e = true)
    (hlegal : s.Legal e) : s.step e = .error .resumeDone := by
  obtain ⟨r, status, got, arrived, ended⟩ := s
  cases hstatus
  obtain ⟨hcoro, hmode, -⟩ := hinv
  dsimp only at hcoro hmode
  cases e with
  | chunk str =>
    simp [step, HttpRequest.handleData, hlegal.2, hmode, hcoro]
  | finish =>
    simp [step, HttpRequest.handleBody, HttpRequest.handleData, hmode, hcoro]
  | onBody => cases he
  | awaitBody => cases he
  | onData => cases he
  | awaitData => cases he

/-- A callback that is not told of the end. -/
def Late (s : DataListener) : Prop :=
  s.status = .registered ∧ s.ended = true ∧ [] ∉ s.got

/-- A callback that is registered after the end is late. -/
theorem late_of_onData {s s' : DataListener} (hinv : s.Inv)
    (hstatus : s.status = .idle) (hended : s.ended = true)
    (h : s.step .onData = .ok s') : s'.Late := by
  obtain ⟨r, status, got, arrived, ended⟩ := s
  cases hstatus
  cases hended
  obtain ⟨hr, hgot⟩ := hinv
  dsimp only at hr hgot
  subst hr hgot
  by_cases harrived : arrived = []
  · subst harrived
    cases h
    exact ⟨rfl, rfl, List.not_mem_nil⟩
  · have hstep : step ⟨kept arrived true, .idle, [], arrived, true⟩ .onData
        = .ok ⟨{ kept arrived true with
            dataChunkMode := true, onDataCb := true, buffered := false },
          .registered, [arrived], arrived, true⟩ := by
      simp [step, kept, HttpRequest.onData, harrived, after, receive, valueOf]
    rw [hstep] at h
    cases h
    refine ⟨rfl, rfl, fun hmem => harrived ?_⟩
    exact (List.mem_singleton.mp hmem).symm

/-- A late callback stays so: nothing arrives any more. -/
theorem late_step (s : DataListener) (e : BodyEvent) (s' : DataListener)
    (hlate : s.Late) (hlegal : s.Legal e) (h : s.step e = .ok s') :
    s'.Late := by
  obtain ⟨hstatus, hended, hgot⟩ := hlate
  have hsame : s.step e = .ok s := by
    cases e with
    | chunk str => exact absurd (hlegal.1.symm.trans hended) (by decide)
    | finish => exact absurd (hlegal.symm.trans hended) (by decide)
    | onBody => rfl
    | awaitBody => rfl
    | onData => rw [step, if_neg (by rw [hstatus]; decide)]
    | awaitData => rw [step, if_neg (by rw [hstatus]; decide)]
  rw [hsame] at h
  cases h
  exact ⟨hstatus, hended, hgot⟩

/-- **A consumer that is told of the end was attentive.** -/
theorem attentive_of_exec {es : List BodyEvent} {s t : DataListener}
    (hinv : s.Inv) (hlegal : Run.Throughout step Legal s es)
    (h : Run.exec step s es = .ok t) (hgot : [] ∈ t.got) :
    Run.Throughout step Attentive s es := by
  induction es generalizing s with
  | nil => trivial
  | cons e es ih =>
    obtain ⟨s', hs, hrest⟩ := Run.step_of_exec_cons h
    have hatt : s.Attentive e := by
      have hnotBusy : isArrival e = true → s.status ≠ .busy := by
        intro he hbusy
        rw [step_of_busy hinv hbusy he hlegal.1] at hs
        cases hs
      cases e with
      | chunk str => exact hnotBusy rfl
      | finish => exact hnotBusy rfl
      | onBody => trivial
      | awaitBody => trivial
      | awaitData => trivial
      | onData =>
        intro hidle
        by_contra hended
        have hlate := late_of_onData hinv hidle
          ((Bool.not_eq_false _).mp hended) hs
        exact (Run.invariant late_step hlate (hlegal.2 s' hs) hrest).2.2 hgot
    obtain ⟨s₁, hs₁, hinv'⟩ := inv_step s e hinv ⟨hatt, hlegal.1⟩
    rw [hs] at hs₁
    cases hs₁
    refine ⟨hatt, fun s₂ hs₂ => ?_⟩
    rw [hs] at hs₂
    cases hs₂
    exact ih hinv' (hlegal.2 s' hs) hrest

/-- **The pieces are the body and the end comes once, exactly where the
consumer is attentive.** -/
theorem getsAll_iff_attentive (chunks : List Bytes) (es : List BodyEvent)
    (h : Schedule chunks es) :
    GetsAll es chunks ↔ Run.Throughout step Attentive start es := by
  have hlegal : Run.Throughout step Legal start es :=
    legal_of_arrive es start chunks h.nonempty h.arrive
  constructor
  · rintro ⟨t, ht, parts, hgot, -⟩
    refine attentive_of_exec inv_start hlegal ht ?_
    rw [hgot]
    exact List.mem_append_right _ (List.mem_singleton.mpr rfl)
  · intro hatt
    obtain ⟨t, ht, hinv⟩ := Run.exec_ok inv_step inv_start (hatt.and hlegal)
    obtain ⟨harrived, hended⟩ := history_of_schedule h.arrive ht
    obtain ⟨hidle, hbusy⟩ := h.complete t ht
    refine ⟨t, ht, ?_⟩
    rw [← harrived]
    unfold Inv at hinv
    cases hstatus : t.status with
    | idle => exact absurd hstatus hidle
    | busy => exact absurd hstatus hbusy
    | waiting =>
      rw [hstatus] at hinv
      exact absurd (hinv.2.2.2.2.1.symm.trans hended) (by decide)
    | done =>
      rw [hstatus] at hinv
      exact hinv.2
    | registered =>
      rw [hstatus] at hinv
      have hpieces := hinv.2.2.2
      rw [if_pos hended] at hpieces
      exact hpieces

/-- A consumer that does nothing but wait gets all. -/
theorem waiting_getsAll :
    GetsAll [.chunk (bytes "he"), .awaitData, .awaitData, .chunk (bytes "llo"),
      .awaitData, .finish] [bytes "he", bytes "llo"] := by
  refine (getsAll_iff_attentive _ _ ⟨by decide, rfl, Or.inr (by decide),
    fun s hs => ?_⟩).mpr (by decide)
  cases hs
  exact ⟨by decide, by decide⟩

/-- **A consumer that is busy when a chunk arrives is resumed in a coroutine
that has finished.** -/
theorem busy_not_getsAll :
    ¬ ∀ (chunks : List Bytes) (es : List BodyEvent), Schedule chunks es →
      GetsAll es chunks := by
  intro h
  have hfails : Run.exec step start
      [.awaitData, .chunk (bytes "he"), .chunk (bytes "llo"), .finish]
      = .error .resumeDone := rfl
  obtain ⟨s, hs, -⟩ := h [bytes "he", bytes "llo"]
    [.awaitData, .chunk (bytes "he"), .chunk (bytes "llo"), .finish]
    ⟨by decide, rfl, Or.inr (by decide), fun s hs => by
      rw [hfails] at hs
      cases hs⟩
  rw [hfails] at hs
  cases hs

end DataListener
