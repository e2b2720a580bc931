import Harmony.EventDispatcher
import Harmony.EventEncoding

/-!
# Events from the channel to the client

A worker has one dispatcher and any number of event streams. A handler makes
an event stream for its request, subscribes it to channels and may send events
of its own; notifications of the database are dispatched to the channels; a
timer pings every stream. Meanwhile the session asks each stream for data,
whenever and in whatever pieces it likes, and when a request is over its stream
is destroyed and takes itself out of the dispatcher.

The dispatcher knows streams by their addresses, and the address of a stream
that is gone may be that of the next one. For the program each client has an
inbox of its own (`Inbox`): the channels its stream was subscribed to and the
events that came in since the stream was made. The worker never touches a stream
that is not there (`EventHub.not_dangling`), and the text it has written for a
client, with what it still owes, is that of the events in its inbox
(`EventHub.inbox_of_run`).
-/

open ServerSentEvents

/-- **A worker**, as far as its event streams go. -/
structure EventHub (α : Type) where
  dispatcher : EventDispatcher α
  /-- The streams that are there, by their addresses. -/
  streams : α → Option Attached
  /-- What has been written for them. -/
  text : α → Bytes

/-- **What happens on a worker.** -/
inductive EventHub.Step (α : Type) (N : ℕ) where
  /-- `EventSource::create`. -/
  | create (es : α)
  /-- `EventSource::suscribe`. -/
  | suscribe (es : α) (channel : Bytes)
  /-- `EventSource::send`. -/
  | send (es : α) (ev : Event)
  /-- `EventDispatcher::dispatch`. -/
  | dispatch (ev : Publication)
  /-- `EventStream::periodic_cb`. -/
  | periodic (es : α)
  /-- `data_read_cb`, for a frame of at most `limit` bytes. -/
  | read (es : α) (limit : ℕ) (remoteClosed : Bool)
  /-- `send_data_cb`, with the write buffer as it is behind the header of the
  frame. -/
  | write (es : α) (wb : Buffer N)
  /-- The destructor of the stream. -/
  | destroy (es : α)

/-- Why a step does not happen, or what goes wrong. -/
inductive EventHub.Mishap where
  /-- There is no such stream, or its address is taken, or nothing was asked
  for. -/
  | impossible
  /-- The dispatcher submits to a stream that is not there. -/
  | dangling
  /-- A call on a stream throws. -/
  | throws (f : Fault)
  deriving DecidableEq, Repr

/-! ## The inbox -/

/-- **What a client is to receive.** -/
structure Inbox where
  /-- The channels, as often as the stream was subscribed to them. -/
  channels : List Bytes
  events : List Event
  deriving DecidableEq

/-- An event more. -/
def Inbox.add (b : Inbox) (evs : List Event) : Inbox :=
  { b with events := b.events ++ evs }

variable {α : Type} [DecidableEq α] {N : ℕ}

/-- **What a step means for a client**, if there is one at the address. -/
def Inbox.after (es : α) (b : Option Inbox) : EventHub.Step α N → Option Inbox
  | .create es' => if es' = es then some ⟨[], []⟩ else b
  | .suscribe es' channel =>
    if es' = es then b.map fun b => { b with channels := channel :: b.channels }
    else b
  | .send es' ev => if es' = es then b.map (·.add [ev]) else b
  | .dispatch ev =>
    b.map fun b => b.add (List.replicate (b.channels.count ev.channel) ev.event)
  | .periodic es' =>
    if es' = es then b.map (·.add [EventStream.pingEvent]) else b
  | .destroy es' => if es' = es then none else b
  | .read .. => b
  | .write .. => b

/-- The inbox of the client at an address, behind all steps. -/
def Inbox.of (es : α) (steps : List (EventHub.Step α N)) : Option Inbox :=
  steps.foldl (Inbox.after es) none

namespace EventHub

/-- No stream was ever made. -/
def start : EventHub α := ⟨.new, fun _ => none, fun _ => []⟩

/-- The loop of `publish`. -/
def submitEach (ev : Event) (streams : α → Option Attached) :
    List (Option α) → Except Mishap (α → Option Attached)
  | [] => .ok streams
  | none :: vec => submitEach ev streams vec
  | some es :: vec =>
    match streams es with
    | none => .error .dangling
    | some a =>
      submitEach ev (Function.update streams es (some (a.submit ev))) vec

/-- **`EventDispatcher::publish`**. -/
def publish (d : EventDispatcher α) (ev : Publication)
    (streams : α → Option Attached) : Except Mishap (α → Option Attached) :=
  match d.registry ev.channel with
  | some vec => submitEach ev.event streams vec
  | none => .ok streams

/-- A step of one stream that is there. -/
def withStream (k : EventHub α) (es : α)
    (f : Attached → Except Mishap (EventHub α)) : Except Mishap (EventHub α) :=
  match k.streams es with
  | none => .error .impossible
  | some a => f a

/-- A stream is replaced. -/
def put (k : EventHub α) (es : α) (a : Attached) : EventHub α :=
  { k with streams := Function.update k.streams es (some a) }

/-- **One step.** -/
def step (k : EventHub α) : Step α N → Except Mishap (EventHub α)
  | .create es =>
    match k.streams es with
    | some _ => .error .impossible
    | none =>
      .ok { k with
        streams := Function.update k.streams es (some .start)
        text := Function.update k.text es [] }
  | .suscribe es channel =>
    k.withStream es fun _ =>
      .ok { k with dispatcher := k.dispatcher.suscribe channel es }
  | .send es ev => k.withStream es fun a => .ok (k.put es (a.submit ev))
  | .dispatch ev =>
    match publish k.dispatcher ev k.streams with
    | .error e => .error e
    | .ok streams => .ok { k with streams := streams }
  | .periodic es =>
    k.withStream es fun a => .ok (k.put es (a.submit EventStream.pingEvent))
  | .read es limit remoteClosed =>
    k.withStream es fun a =>
      -- nghttp2 asks for at least one byte
      if limit = 0 then .error .impossible
      else
        match a.step (.read limit remoteClosed : Attached.Step N) with
        | .error f => .error (.throws f)
        | .ok a => .ok (k.put es a)
  | .write es wb =>
    k.withStream es fun a =>
      match a.asked with
      | none => .error .impossible
      | some wlen =>
        -- would block
        if wb.wleft < wlen then .ok k
        else
          match a.stream.send wb wlen with
          | .error f => .error (.throws f)
          | .ok (stream, wb') =>
            .ok { k.put es { a with
                stream := stream
                asked := none
                left := a.left ++ a.stream.queue.take
                  (a.stream.queue.length - stream.queue.length) } with
              text := Function.update k.text es
                (k.text es ++ EventStream.written ⟨wb, wlen⟩ wb') }
  | .destroy es =>
    k.withStream es fun _ =>
      .ok { k with
        dispatcher := k.dispatcher.remove es
        streams := Function.update k.streams es none }

/-! ## Submitting -/

/-- **The loop submits to each stream that the slots hold**, if they are all
there. -/
theorem submitEach_spec (ev : Event) (vec : List (Option α))
    (streams : α → Option Attached)
    (hlive : ∀ es ∈ Slots.held vec, (streams es).isSome = true) :
    ∃ streams', submitEach ev streams vec = .ok streams'
      ∧ ∀ s, streams' s = (streams s).map
        (fun a => a.submit ev)^[(Slots.held vec).count s] := by
  induction vec generalizing streams with
  | nil =>
    refine ⟨streams, rfl, fun s => ?_⟩
    rw [Slots.held_nil, Multiset.count_zero, Function.iterate_zero,
      Option.map_id]
    rfl
  | cons slot vec ih =>
    cases slot with
    | none =>
      rw [Slots.held_cons_none] at hlive ⊢
      exact ih streams hlive
    | some es =>
      rw [Slots.held_cons_some] at hlive ⊢
      obtain ⟨a, ha⟩ := Option.isSome_iff_exists.mp
        (hlive es (Multiset.mem_cons_self es _))
      obtain ⟨streams', hok, hall⟩ := ih
        (Function.update streams es (some (a.submit ev))) fun es' hmem => by
          by_cases hes : es' = es
          · rw [hes, Function.update_self]
            rfl
          · rw [Function.update_of_ne hes]
            exact hlive es' (Multiset.mem_cons_of_mem hmem)
      refine ⟨streams', ?_, fun s => ?_⟩
      · rw [submitEach, ha]
        exact hok
      · rw [hall]
        by_cases hs : s = es
        · rw [hs, Function.update_self, ha, Multiset.count_cons_self,
            Function.iterate_succ]
          rfl
        · rw [Function.update_of_ne hs, Multiset.count_cons_of_ne hs]

/-- **A publication reaches the streams of its channel**, if they are all
there. -/
theorem publish_spec (d : EventDispatcher α) (ev : Publication)
    (streams : α → Option Attached)
    (hlive : ∀ es ∈ d.subscriptions ev.channel, (streams es).isSome = true) :
    ∃ streams', publish d ev streams = .ok streams'
      ∧ ∀ s, streams' s = (streams s).map
        (fun a => a.submit ev.event)^[(d.subscriptions ev.channel).count s] := by
  unfold EventDispatcher.subscriptions at hlive ⊢
  unfold publish
  cases hvec : d.registry ev.channel with
  | some vec =>
    rw [hvec] at hlive
    exact submitEach_spec ev.event vec streams hlive
  | none =>
    refine ⟨streams, rfl, fun s => ?_⟩
    dsimp only
    rw [Multiset.count_zero, Function.iterate_zero, Option.map_id]
    rfl

/-! ## A stream and its client -/

/-- **A stream serves a client**: all the events in the inbox were submitted to
it, and what it has written and still owes is their text. -/
structure Serves (text : Bytes) (a : Attached) (b : Inbox) : Prop where
  inv : a.Inv
  /-- What was asked for is a part of the first event. -/
  asked : ∀ wlen, a.asked = some wlen → ∃ ev rest,
    a.stream.queue = ev :: rest ∧ 1 ≤ wlen ∧ a.stream.pos + wlen ≤ ev.len
  submitted : a.submitted = b.events
  written : text ++ a.stream.owed = b.events.flatMap Event.frame

/-- The stream of a new client. -/
theorem serves_start : Serves [] .start ⟨[], []⟩ :=
  ⟨Attached.inv_start, nofun, rfl, rfl⟩

/-- What the channels are does not matter to a stream. -/
theorem Serves.channels {text : Bytes} {a : Attached} {b : Inbox}
    (h : Serves text a b) (channels : List Bytes) :
    Serves text a ⟨channels, b.events⟩ :=
  ⟨h.inv, h.asked, h.submitted, h.written⟩

/-- **An event that is submitted is owed** behind all others. -/
theorem owed_submit {a : Attached} (h : a.Inv) (ev : Event) :
    (a.submit ev).stream.owed = a.stream.owed ++ ev.frame := by
  have hinside := h.inside
  unfold EventStream.Inside at hinside
  have hsubmit : (a.submit ev).stream = (a.stream.submit ev).1 := rfl
  rw [hsubmit]
  unfold EventStream.submit
  cases hq : a.stream.queue with
  | nil =>
    rw [hq] at hinside
    dsimp only at hinside ⊢
    split_ifs <;> simp [EventStream.owed, hq, hinside]
  | cons ev' rest =>
    have hpaused : a.stream.paused = false := eq_false_of_ne_true fun hp => by
      rw [h.dry hp] at hq
      cases hq
    rw [hq] at hinside
    rw [if_neg (by rw [hpaused]; exact Bool.false_ne_true)]
    unfold EventStream.owed
    rw [hq, List.map_append, List.flatten_append, List.drop_append_of_le_length]
    · simp
    · rw [List.map_cons, List.flatten_cons, List.length_append,
        Event.length_frame]
      exact hinside.le.trans (Nat.le_add_right _ _)

/-- **Submitting.** -/
theorem Serves.submit {text : Bytes} {a : Attached} {b : Inbox}
    (h : Serves text a b) (ev : Event) :
    Serves text (a.submit ev) (b.add [ev]) where
  inv := h.inv.step (N := 0) (a.step_submit ev)
  asked wlen hasked := by
    obtain ⟨ev', rest, hq, hpos, hle⟩ := h.asked wlen hasked
    have hpaused : a.stream.paused = false := eq_false_of_ne_true fun hp => by
      rw [h.inv.dry hp] at hq
      cases hq
    refine ⟨ev', rest ++ [ev], ?_, hpos, ?_⟩
    · show (a.stream.submit ev).1.queue = _
      unfold EventStream.submit
      rw [if_neg (by rw [hpaused]; exact Bool.false_ne_true), hq]
      rfl
    · show (a.stream.submit ev).1.pos + wlen ≤ _
      unfold EventStream.submit
      rw [if_neg (by rw [hpaused]; exact Bool.false_ne_true)]
      exact hle
  submitted := congrArg (· ++ [ev]) h.submitted
  written := by
    rw [owed_submit h.inv, ← List.append_assoc, h.written]
    show _ = (b.events ++ [ev]).flatMap Event.frame
    rw [List.flatMap_append, List.flatMap_singleton]

/-- Submitting as often as the stream is subscribed. -/
theorem Serves.iterate {text : Bytes} {a : Attached} {b : Inbox}
    (h : Serves text a b) (ev : Event) (n : ℕ) :
    Serves text ((fun a => a.submit ev)^[n] a) (b.add (List.replicate n ev)) := by
  induction n generalizing a b with
  | zero =>
    have hb : b.add (List.replicate 0 ev) = b := by
      unfold Inbox.add
      rw [List.replicate_zero, List.append_nil]
    rw [hb]
    exact h
  | succ n ih =>
    rw [Function.iterate_succ_apply]
    have hb : b.add (List.replicate (n + 1) ev)
        = (b.add [ev]).add (List.replicate n ev) := by
      unfold Inbox.add
      rw [List.replicate_succ, List.append_assoc]
      rfl
    rw [hb]
    exact ih (h.submit ev)

/-- **Reading** changes nothing that a client could see. -/
theorem Serves.read {text : Bytes} {a a' : Attached} {b : Inbox}
    (h : Serves text a b) {limit : ℕ} {remoteClosed : Bool} (hlimit : limit ≠ 0)
    (hstep : a.step (.read limit remoteClosed : Attached.Step N) = .ok a') :
    Serves text a' b := by
  have hinv := h.inv.step hstep
  rw [Attached.step] at hstep
  split_ifs at hstep with hskip
  · cases hstep
    exact h
  · rw [Bool.or_eq_true, not_or] at hskip
    have hnone : a.asked = none := by
      cases hasked : a.asked with
      | none => rfl
      | some wlen =>
        rw [hasked] at hskip
        exact absurd rfl hskip.2
    cases hq : a.stream.queue with
    | nil =>
      rw [Attached.dataReadCb_nil hq h.inv.inside] at hstep
      cases hstep
      refine ⟨hinv, fun wlen hasked => ?_, h.submitted, h.written⟩
      cases hnone.symm.trans hasked
    | cons ev rest =>
      have hinside := h.inv.inside
      unfold EventStream.Inside at hinside
      rw [hq] at hinside
      rw [Attached.dataReadCb_cons hq h.inv.inside] at hstep
      cases hstep
      refine ⟨hinv, fun wlen hasked => ⟨ev, rest, hq, ?_⟩, h.submitted,
        h.written⟩
      have hwlen : min (ev.len - a.stream.pos) limit = wlen :=
        Option.some.inj hasked
      show 1 ≤ wlen ∧ a.stream.pos + wlen ≤ ev.len
      omega

/-- **Writing**: what is written was owed. -/
theorem Serves.write {text : Bytes} {a : Attached} {b : Inbox}
    (h : Serves text a b) {wlen : ℕ} (hasked : a.asked = some wlen)
    {wb wb' : Buffer N} (hroom : wlen ≤ wb.wleft) {stream : EventStream}
    (hsend : a.stream.send wb wlen = .ok (stream, wb')) :
    Serves (text ++ EventStream.written ⟨wb, wlen⟩ wb') { a with
      stream := stream
      asked := none
      left := a.left ++ a.stream.queue.take
        (a.stream.queue.length - stream.queue.length) } b := by
  obtain ⟨ev, rest, hq, hpos, hle⟩ := h.asked wlen hasked
  have hclean : a.stream.CleanPiece wlen := by
    by_contra hnot
    rw [EventStream.send_of_not_clean hq hpos hle hroom hnot] at hsend
    cases hsend
  obtain ⟨wb₁, hsend₁, happ⟩ :=
    EventStream.send_of_clean hq hpos hle hroom hclean
  rw [hsend] at hsend₁
  cases hsend₁
  have hstep : a.step (.send wb : Attached.Step N) = .ok { a with
      stream := a.stream.advance wlen
      asked := none
      left := a.left ++ a.stream.queue.take
        (a.stream.queue.length - (a.stream.advance wlen).queue.length) } := by
    rw [Attached.step, hasked]
    dsimp only
    rw [hsend]
    rfl
  refine ⟨h.inv.send hstep, fun _ hasked => (by cases hasked), h.submitted, ?_⟩
  have hwritten : EventStream.written ⟨wb, wlen⟩ wb' = _ :=
    EventStream.written_of_appends (c := ⟨wb, wlen⟩) happ
  rw [hwritten, List.append_assoc,
    EventStream.slice_append_owed_advance hq hle]
  exact h.written

/-! ## All streams -/

/-- **What is at an address**: a stream that serves its client and is subscribed
to its channels, or nothing, which the dispatcher does not know either. -/
inductive AtAddress (k : EventHub α) (es : α) : Option Attached → Option Inbox →
    Prop
  | gone (hcount : ∀ c, (k.dispatcher.subscriptions c).count es = 0) :
    AtAddress k es none none
  | serves {a : Attached} {b : Inbox} (hserves : Serves (k.text es) a b)
      (hcount : ∀ c,
        (k.dispatcher.subscriptions c).count es = b.channels.count c) :
    AtAddress k es (some a) (some b)

/-- At each address is what belongs there. -/
def Inv (k : EventHub α) (boxes : α → Option Inbox) : Prop :=
  ∀ es, AtAddress k es (k.streams es) (boxes es)

/-- What is at one address depends on little of the worker. -/
theorem AtAddress.congr {k k' : EventHub α} {es : α} {a : Option Attached}
    {b : Option Inbox} (h : AtAddress k es a b) (htext : k'.text es = k.text es)
    (hcount : ∀ c, (k'.dispatcher.subscriptions c).count es
      = (k.dispatcher.subscriptions c).count es) : AtAddress k' es a b := by
  cases h with
  | gone hcount' => exact .gone fun c => (hcount c).trans (hcount' c)
  | serves hserves hcount' =>
    exact .serves (htext ▸ hserves) fun c => (hcount c).trans (hcount' c)

/-- A stream that is there has a client. -/
theorem Inv.serves {k : EventHub α} {boxes : α → Option Inbox}
    (h : k.Inv boxes) {es : α} {a : Attached} (ha : k.streams es = some a) :
    ∃ b, boxes es = some b ∧ Serves (k.text es) a b
      ∧ ∀ c, (k.dispatcher.subscriptions c).count es = b.channels.count c := by
  have hat := h es
  rw [ha] at hat
  generalize boxes es = box at hat
  cases hat with
  | serves hserves hcount => exact ⟨_, rfl, hserves, hcount⟩

/-- **One stream goes on**, the others are left alone. -/
theorem Inv.update {k k' : EventHub α} {boxes boxes' : α → Option Inbox}
    (h : k.Inv boxes) (es : α) (hat : AtAddress k' es (k'.streams es) (boxes' es))
    (hsame : ∀ es', es' ≠ es → k'.streams es' = k.streams es'
      ∧ boxes' es' = boxes es' ∧ k'.text es' = k.text es'
      ∧ ∀ c, (k'.dispatcher.subscriptions c).count es'
        = (k.dispatcher.subscriptions c).count es') : k'.Inv boxes' := by
  intro es'
  by_cases hes : es' = es
  · rw [hes]
    exact hat
  · obtain ⟨hstreams, hboxes, htext, hcount⟩ := hsame es' hes
    rw [hstreams, hboxes]
    exact (h es').congr htext hcount

/-- All streams that the dispatcher knows are there. -/
theorem Inv.live {k : EventHub α} {boxes : α → Option Inbox} (h : k.Inv boxes)
    {c : Bytes} {es : α} (hmem : es ∈ k.dispatcher.subscriptions c) :
    (k.streams es).isSome = true := by
  have hat := h es
  generalize k.streams es = a at hat
  generalize boxes es = b at hat
  cases hat with
  | gone hcount => exact absurd (hcount c) (Multiset.count_ne_zero.mpr hmem)
  | serves => rfl

theorem inv_start : (start : EventHub α).Inv fun _ => none :=
  fun _ => .gone fun _ => Multiset.count_zero _

/-! ## Steps -/

omit [DecidableEq α] in
/-- A step of a stream that is there. -/
theorem exists_of_withStream {k k' : EventHub α} {es : α}
    {f : Attached → Except Mishap (EventHub α)}
    (h : k.withStream es f = .ok k') :
    ∃ a, k.streams es = some a ∧ f a = .ok k' := by
  unfold withStream at h
  cases ha : k.streams es with
  | none =>
    rw [ha] at h
    cases h
  | some a =>
    rw [ha] at h
    exact ⟨a, rfl, h⟩

/-- **A stream that has been changed** still serves its client. -/
theorem Inv.put {k : EventHub α} {boxes boxes' : α → Option Inbox}
    (h : k.Inv boxes) {es : α} {a' : Attached} (b' : Inbox)
    (hbox : boxes' es = some b') (hserves : Serves (k.text es) a' b')
    (hcount : ∀ c,
      (k.dispatcher.subscriptions c).count es = b'.channels.count c)
    (hother : ∀ es', es' ≠ es → boxes' es' = boxes es') :
    (k.put es a').Inv boxes' := by
  refine h.update es ?_ fun es' hes =>
    ⟨Function.update_of_ne hes _ _, hother es' hes, rfl, fun _ => rfl⟩
  show AtAddress _ es (Function.update k.streams es (some a') es) (boxes' es)
  rw [Function.update_self, hbox]
  exact .serves hserves hcount

/-- Events that are submitted to one stream. -/
theorem Inv.submit {k : EventHub α} {boxes : α → Option Inbox} (h : k.Inv boxes)
    {es : α} {a : Attached} (ha : k.streams es = some a) (ev : Event) :
    (k.put es (a.submit ev)).Inv fun es' =>
      if es = es' then (boxes es').map (·.add [ev]) else boxes es' := by
  obtain ⟨b, hb, hserves, hcount⟩ := h.serves ha
  refine h.put (b.add [ev]) ?_ (hserves.submit ev) hcount
    fun es' hes => if_neg (Ne.symm hes)
  rw [if_pos rfl, hb]
  rfl

/-- **Every step keeps to the inboxes.** -/
theorem Inv.step {k k' : EventHub α} {boxes : α → Option Inbox}
    (h : k.Inv boxes) {e : Step α N} (hstep : k.step e = .ok k') :
    k'.Inv fun es => Inbox.after es (boxes es) e := by
  cases e with
  | create es =>
    rw [EventHub.step] at hstep
    split at hstep
    · cases hstep
    · rename_i hnone
      cases hstep
      refine h.update es ?_ fun es' hes => ⟨Function.update_of_ne hes _ _,
        if_neg (Ne.symm hes), Function.update_of_ne hes _ _, fun _ => rfl⟩
      have hat := h es
      rw [hnone] at hat
      generalize boxes es = b at hat
      cases hat with
      | gone hcount =>
        show AtAddress _ es (Function.update k.streams es (some .start) es)
          (if es = es then some ⟨[], []⟩ else none)
        rw [Function.update_self, if_pos rfl]
        refine .serves ?_ hcount
        show Serves (Function.update k.text es [] es) _ _
        rw [Function.update_self]
        exact serves_start
  | suscribe es channel =>
    obtain ⟨a, ha, hf⟩ := exists_of_withStream hstep
    cases hf
    obtain ⟨b, hb, hserves, hcount⟩ := h.serves ha
    have hsubs : ∀ c es', ((k.dispatcher.suscribe channel es).subscriptions
          c).count es' = (k.dispatcher.subscriptions c).count es'
            + if c = channel ∧ es' = es then 1 else 0 := fun c es' => by
      rw [EventDispatcher.subscriptions_suscribe]
      unfold Subscriptions.suscribe
      by_cases hc : c = channel
      · rw [hc, Function.update_self, Multiset.count_cons]
        simp only [true_and]
      · rw [Function.update_of_ne hc, if_neg fun hboth => hc hboth.1,
          Nat.add_zero]
    refine h.update es ?_ fun es' hes =>
      ⟨rfl, if_neg (Ne.symm hes), rfl, fun c => ?_⟩
    · show AtAddress _ es (k.streams es) (if es = es then (boxes es).map _ else _)
      rw [if_pos rfl, ha, hb]
      refine .serves (hserves.channels (channel :: b.channels)) fun c => ?_
      show ((k.dispatcher.suscribe channel es).subscriptions c).count es
        = (channel :: b.channels).count c
      rw [hsubs, hcount, List.count_cons]
      refine congrArg (_ + ·) (if_congr ?_ rfl rfl)
      rw [and_iff_left rfl, beq_iff_eq, eq_comm]
    · show ((k.dispatcher.suscribe channel es).subscriptions c).count es' = _
      rw [hsubs, if_neg fun hboth => hes hboth.2, Nat.add_zero]
  | send es ev =>
    obtain ⟨a, ha, hf⟩ := exists_of_withStream hstep
    cases hf
    exact h.submit ha ev
  | periodic es =>
    obtain ⟨a, ha, hf⟩ := exists_of_withStream hstep
    cases hf
    exact h.submit ha _
  | dispatch ev =>
    obtain ⟨streams, hok, hall⟩ := publish_spec k.dispatcher ev k.streams
      fun es hmem => h.live hmem
    rw [EventHub.step, hok] at hstep
    cases hstep
    intro es
    show AtAddress _ es (streams es) ((boxes es).map _)
    have hat := h es
    rw [hall]
    generalize k.streams es = a at hat
    generalize boxes es = b at hat
    cases hat with
    | gone hcount => exact .gone hcount
    | serves hserves hcount =>
      rw [hcount]
      exact .serves (hserves.iterate ev.event _) hcount
  | read es limit remoteClosed =>
    obtain ⟨a, ha, hf⟩ := exists_of_withStream hstep
    obtain ⟨b, hb, hserves, hcount⟩ := h.serves ha
    split_ifs at hf with hlimit
    cases hread : a.step (.read limit remoteClosed : Attached.Step N) with
    | error f =>
      rw [hread] at hf
      cases hf
    | ok a' =>
      rw [hread] at hf
      cases hf
      exact h.put b hb (hserves.read hlimit hread) hcount fun _ _ => rfl
  | write es wb =>
    obtain ⟨a, ha, hf⟩ := exists_of_withStream hstep
    obtain ⟨b, hb, hserves, hcount⟩ := h.serves ha
    dsimp only at hf
    cases hasked : a.asked with
    | none =>
      rw [hasked] at hf
      cases hf
    | some wlen =>
      rw [hasked] at hf
      dsimp only at hf
      split_ifs at hf with hroom
      · cases hf
        exact h
      · cases hsend : a.stream.send wb wlen with
        | error f =>
          rw [hsend] at hf
          cases hf
        | ok r =>
          obtain ⟨stream, wb'⟩ := r
          rw [hsend] at hf
          cases hf
          refine h.update es ?_ fun es' hes =>
            ⟨Function.update_of_ne hes _ _, rfl, Function.update_of_ne hes _ _,
              fun _ => rfl⟩
          show AtAddress _ es (Function.update k.streams es (some _) es)
            (boxes es)
          rw [Function.update_self, hb]
          refine .serves ?_ hcount
          show Serves (Function.update k.text es _ es) _ _
          rw [Function.update_self]
          exact hserves.write hasked (Nat.not_lt.mp hroom) hsend
  | destroy es =>
    obtain ⟨a, ha, hf⟩ := exists_of_withStream hstep
    cases hf
    have hsubs : ∀ c es', ((k.dispatcher.remove es).subscriptions c).count es'
        = if es' = es then 0
          else (k.dispatcher.subscriptions c).count es' := fun c es' => by
      rw [EventDispatcher.subscriptions_remove]
      unfold Subscriptions.remove
      rw [Multiset.count_filter]
      by_cases hes : es' = es
      · rw [if_pos hes, if_neg fun hne => hne hes]
      · rw [if_neg hes, if_pos hes]
    refine h.update es ?_ fun es' hes =>
      ⟨Function.update_of_ne hes _ _, if_neg (Ne.symm hes), rfl, fun c => ?_⟩
    · show AtAddress _ es (Function.update k.streams es none es)
        (if es = es then none else _)
      rw [Function.update_self, if_pos rfl]
      refine .gone fun c => ?_
      show ((k.dispatcher.remove es).subscriptions c).count es = 0
      rw [hsubs, if_pos rfl]
    · show ((k.dispatcher.remove es).subscriptions c).count es' = _
      rw [hsubs, if_neg hes]

omit [DecidableEq α] in
/-- A step of one stream goes wrong as that stream does. -/
theorem withStream_ne_dangling {k : EventHub α} {es : α}
    {f : Attached → Except Mishap (EventHub α)}
    (hf : ∀ a, f a ≠ .error .dangling) : k.withStream es f ≠ .error .dangling := by
  unfold withStream
  cases k.streams es with
  | none => exact nofun
  | some a => exact hf a

/-- **The dispatcher submits to no stream that is not there.** -/
theorem Inv.ne_dangling {k : EventHub α} {boxes : α → Option Inbox}
    (h : k.Inv boxes) (e : Step α N) : k.step e ≠ .error .dangling := by
  cases e with
  | create es =>
    rw [EventHub.step]
    split <;> exact nofun
  | dispatch ev =>
    obtain ⟨streams, hok, -⟩ := publish_spec k.dispatcher ev k.streams
      fun es hmem => h.live hmem
    rw [EventHub.step, hok]
    exact nofun
  | read es limit remoteClosed =>
    refine withStream_ne_dangling fun a => ?_
    split_ifs
    · exact nofun
    · split <;> exact nofun
  | write es wb =>
    refine withStream_ne_dangling fun a => ?_
    dsimp only
    split
    · exact nofun
    · split_ifs
      · exact nofun
      · split <;> exact nofun
  | suscribe | send | periodic | destroy =>
    exact withStream_ne_dangling fun a => nofun

/-! ## Runs -/

/-- What is recorded along a run is the inbox of each client. -/
theorem foldl_after (boxes : α → Option Inbox) (steps : List (Step α N))
    (es : α) :
    steps.foldl (fun boxes e es => Inbox.after es (boxes es) e) boxes es
      = steps.foldl (Inbox.after es) (boxes es) := by
  induction steps generalizing boxes with
  | nil => rfl
  | cons e steps ih => exact ih _

/-- The invariant, behind a run. -/
theorem inv_of_run {steps : List (Step α N)} {k : EventHub α}
    (h : Run.exec step start steps = .ok k) :
    k.Inv fun es => Inbox.of es steps := by
  have hrun : k.Inv (steps.foldl
      (fun boxes e es => Inbox.after es (boxes es) e) fun _ => none) := by
    refine Run.exec_foldl (R := Inv) ?_ inv_start h
    exact fun _ _ _ _ hinv hstep => hinv.step hstep
  have hboxes : steps.foldl (fun boxes e es => Inbox.after es (boxes es) e)
      (fun _ => none) = fun es : α => Inbox.of es steps :=
    funext fun es => foldl_after _ steps es
  rw [← hboxes]
  exact hrun

/-- **No event is submitted to a stream that is gone**, whatever addresses new
streams are given and whenever streams are destroyed. -/
theorem not_dangling (steps : List (Step α N)) :
    Run.exec step (start : EventHub α) steps ≠ .error .dangling :=
  Run.exec_ne_error (I := fun k => ∃ boxes, Inv k boxes)
    (fun _ _ _ ⟨_, hinv⟩ hstep => ⟨_, hinv.step hstep⟩)
    (fun _ e ⟨_, hinv⟩ => hinv.ne_dangling e) ⟨_, inv_start⟩ steps

/-- **Every client receives the events of its inbox, and no others.** After any
run the streams that are there are those with an inbox, the dispatcher knows
each as often as it was subscribed to each channel since it was made, and the
text written for it, with what it still owes, is that of the events that came
in since, in their order. Once nothing is owed, the client reads from the text
exactly these events, if and only if each has a name, and neither the name nor
the payload has a line break in it. -/
theorem inbox_of_run {steps : List (Step α N)} {k : EventHub α}
    (h : Run.exec step start steps = .ok k) (es : α) :
    ((k.streams es).isSome = (Inbox.of es steps).isSome)
      ∧ (∀ c, (k.dispatcher.subscriptions c).count es
        = (Inbox.of es steps).elim 0 fun b => b.channels.count c)
      ∧ ∀ a b, k.streams es = some a → Inbox.of es steps = some b →
        k.text es ++ a.stream.owed = b.events.flatMap Event.frame
        ∧ (a.stream.queue = [] →
          (decode (k.text es) = b.events.map Event.message
            ↔ ∀ ev ∈ b.events,
              OneLine ev.name ∧ ev.name ≠ [] ∧ OneLine ev.view)) := by
  have hat : AtAddress k es (k.streams es) (Inbox.of es steps) :=
    inv_of_run h es
  generalize k.streams es = a at hat ⊢
  generalize Inbox.of es steps = b at hat ⊢
  cases hat with
  | gone hcount => exact ⟨rfl, hcount, nofun⟩
  | @serves a b hserves hcount =>
    refine ⟨rfl, hcount, fun a' b' ha hb => ?_⟩
    cases ha
    cases hb
    refine ⟨hserves.written, fun hempty => ?_⟩
    have howed : a.stream.owed = [] := by
      unfold EventStream.owed
      rw [hempty]
      exact List.drop_nil
    have htext : k.text es = (b.events.map Event.message).flatMap encode := by
      rw [← List.append_nil (k.text es), ← howed, hserves.written,
        List.flatMap_map]
      exact congrArg (fun f => b.events.flatMap f)
        (funext fun ev => ev.frame_eq_encode)
    rw [htext, decode_flatMap_encode_iff, List.forall_mem_map]
    rfl

/-! ### A run -/

/-- A notification. -/
def hello : Publication := ⟨bytes "news/1", ⟨bytes "news", .notify (bytes "hi"),
  by decide⟩⟩

/-- Two streams of one channel; one is destroyed, and its address given to a
stream that is not subscribed. The other one gets both notifications and a
ping, and sends each in two or three pieces. -/
def twoStreams : List (Step Bool 128) :=
  [.create true, .suscribe true (bytes "news/1"), .create false,
    .suscribe false (bytes "news/1"), .dispatch hello, .read false 19 false,
    .write false (Buffer.empty _), .destroy true, .create true, .dispatch hello,
    .periodic false, .read false 100 false, .write false (Buffer.empty _),
    .read false 18 false, .write false (Buffer.empty _), .read false 2 false,
    .write false (Buffer.empty _), .read false 100 false,
    .write false (Buffer.empty _), .read false 20 false,
    .write false (Buffer.empty _), .read false 100 false,
    .write false (Buffer.empty _)]

/-- The client of the second stream reads all three events. -/
theorem inbox_twoStreams :
    ∃ k : EventHub Bool, Run.exec step start twoStreams = .ok k
      ∧ decode (k.text false)
        = [hello.event, hello.event, EventStream.pingEvent].map Event.message
      ∧ (k.dispatcher.subscriptions (bytes "news/1")).count true = 0 := by
  obtain ⟨k, hk, hseen⟩ := Run.exists_of_map_exec
    (f := fun k => (k.streams false).map fun a => a.stream.queue)
    (show (Run.exec step (start : EventHub Bool) twoStreams).map _
      = .ok (some []) by decide +kernel)
  obtain ⟨-, -, htext⟩ := inbox_of_run hk false
  obtain ⟨-, hcount, -⟩ := inbox_of_run hk true
  obtain ⟨a, ha, hempty⟩ := Option.map_eq_some_iff.mp hseen
  obtain ⟨-, hread⟩ := htext a
    ⟨[bytes "news/1"], [hello.event, hello.event, EventStream.pingEvent]⟩ ha
    (by decide +kernel)
  exact ⟨k, hk, (hread hempty).mpr (by decide +kernel),
    (hcount (bytes "news/1")).trans (by decide +kernel)⟩

end EventHub
