import Harmony.EventSource
import Harmony.RefCount
import Mathlib.Data.List.AList

/-!
# The memory of notifications

A notification of the database is one block of memory from the client library,
with the texts of its channel and of its payload. An event that is made of it
copies neither: its name, its channel and its content are views into that block,
and what keeps the block there is a shared pointer inside the content
(`SharedNotify`). A publication puts a copy of the event into the queue of each
stream of the channel, and there it may wait for as long as the client likes, or
until its stream is destroyed, with all the others.

The dispatcher of a worker and its streams are those of `EventHub`, which has the
texts in the queues by their values. Here they are where they are in the program,
and every read, copy and destruction goes through the heap. Both do the same, step
by step (`NotifyHub.memory_of_run`): nothing that is gone is read or given up,
what waits in a queue still reads as it came, and a notification has been freed,
once, as soon as no queue has it any more.
-/

open RefCount StringView

/-! ## Notifications and views of them -/

/-- **`PGnotify`**: the name of the channel, and the payload. Both are in memory, so
they leave room for what goes around an event. -/
structure PgNotify where
  relname : Bytes
  extra : Bytes
  fits : relname.length + extra.length + 16 < 2 ^ 64
  deriving DecidableEq

/-- Which text of a notification. -/
inductive NotifyText where
  | relname
  | extra
  deriving DecidableEq, Repr

/-- A text of a notification. -/
def PgNotify.text (n : PgNotify) : NotifyText → Bytes
  | .relname => n.relname
  | .extra => n.extra

/-- **A string view into a notification**: the beginning of one of its texts. -/
structure NotifyView where
  notif : ℕ
  text : NotifyText
  length : ℕ
  deriving DecidableEq, Repr

/-- Reading through a view. -/
def NotifyView.read (v : NotifyView) (heap : Heap PgNotify) : Except Misuse Bytes := do
  let n ← heap.read v.notif
  .ok ((n.text v.text).take v.length)

/-- **`SharedNotify`**, with `pg_notify_` and `payload_` of `NotifyBase`; no payload
is the empty text of a literal. -/
structure SharedNotify where
  pgNotify : Option ℕ
  payload : Option NotifyView
  ptr : Option ℕ
  deriving DecidableEq, Repr

namespace SharedNotify

/-- The constructor that takes over a notification. -/
def ofPg (heap : Heap PgNotify) (n : PgNotify) : SharedNotify × Heap PgNotify :=
  let (i, heap) := heap.make n
  (⟨some i, some ⟨i, .extra, n.extra.length⟩, some i⟩, heap)

/-- The copy constructor. -/
def copyConstruct (b : SharedNotify) (heap : Heap PgNotify) :
    Except Misuse (SharedNotify × Heap PgNotify) := do
  let heap ← match b.ptr with
    | some i => heap.share i
    | none => .ok heap
  .ok (⟨b.pgNotify, b.payload, b.ptr⟩, heap)

/-- The move constructor: the new object, and what is left of the other. -/
def moveConstruct (b : SharedNotify) : SharedNotify × SharedNotify :=
  (⟨b.pgNotify, b.payload, b.ptr⟩, ⟨none, none, none⟩)

/-- The destructor. -/
def destroy (b : SharedNotify) (heap : Heap PgNotify) : Except Misuse (Heap PgNotify) :=
  match b.ptr with
  | some i => heap.drop i
  | none => .ok heap

end SharedNotify

/-! ## Events -/

/-- **An event as it is in memory**: one whose texts are its own or last for ever,
or one that was made of a notification. -/
inductive EventRef where
  | plain (ev : Event)
  | notified (name channel : NotifyView) (content : SharedNotify)
  deriving DecidableEq

/-- What goes wrong: with the memory, or with the dispatcher and its streams. -/
inductive NotifyFault where
  | memory (e : Misuse)
  /-- Two texts that are longer than all memory. -/
  | tooLong
  | hub (e : EventHub.Mishap)
  deriving DecidableEq

/-- An access to the memory. -/
def Except.inMemory {β : Type} : Except Misuse β → Except NotifyFault β
  | .ok b => .ok b
  | .error e => .error (.memory e)

@[simp] theorem Except.inMemory_ok {β : Type} (b : β) :
    (Except.ok b : Except Misuse β).inMemory = .ok b := rfl

namespace EventRef

/-- The constructor that takes a `SharedNotify`: the name is what is in front of the
first slash of the channel. -/
def ofNotify (channel : NotifyView) (notif : SharedNotify) (heap : Heap PgNotify) :
    Except Misuse (EventRef × Heap PgNotify) := do
  let (content, heap) ← notif.copyConstruct heap
  let s ← channel.read heap
  .ok (.notified { channel with length := (s.takeWhile (· ≠ slash)).length } channel
    content, heap)

/-- The copy constructor. -/
def copyConstruct (heap : Heap PgNotify) :
    EventRef → Except Misuse (EventRef × Heap PgNotify)
  | plain ev => .ok (plain ev, heap)
  | notified name channel content => do
    let (content, heap) ← content.copyConstruct heap
    .ok (notified name channel content, heap)

/-- The move constructor: the new event, and what is left of the other. Its views
stay what they are. -/
def moveConstruct : EventRef → EventRef × EventRef
  | plain ev => (plain ev, plain ev)
  | notified name channel content =>
    (notified name channel content.moveConstruct.1,
      notified name channel content.moveConstruct.2)

/-- The destructor. -/
def destroy (heap : Heap PgNotify) : EventRef → Except Misuse (Heap PgNotify)
  | plain _ => .ok heap
  | notified _ _ content => content.destroy heap

/-- **The event that is read**, through all its views. -/
def load (heap : Heap PgNotify) : EventRef → Except NotifyFault Event
  | plain ev => .ok ev
  | notified name _ content => do
    let name ← (name.read heap).inMemory
    let payload ← match content.payload with
      | some v => (v.read heap).inMemory
      | none => .ok []
    if h : name.length + payload.length + 16 < 2 ^ 64 then
      .ok ⟨name, .notify payload, h⟩
    else .error .tooLong

end EventRef

/-! ## Streams -/

/-- **An event stream that is there**, with its queue as it is in memory, and with
what nghttp2 knows about it. -/
structure RefStream where
  queue : List EventRef
  pos : ℕ
  paused : Bool
  /-- Whether nghttp2 leaves the source alone. -/
  deferred : Bool
  /-- The frame that is still to be sent. -/
  asked : Option ℕ
  deriving DecidableEq

namespace RefStream

/-- A new stream. -/
def start : RefStream := ⟨[], 0, false, false, none⟩

/-- `EventStream::submit`, of an event that was copied. -/
def submit (s : RefStream) (r : EventRef) : RefStream :=
  let s := { s with queue := s.queue ++ [r] }
  if s.paused then
    -- reset offset
    { s with pos := 0, paused := false, deferred := false }
  else s

/-- **What `length` and `send` see**: of the events the first one, which is read. -/
def front (heap : Heap PgNotify) (s : RefStream) : Except NotifyFault EventStream :=
  match s.queue with
  | [] => .ok ⟨[], s.pos, s.paused⟩
  | r :: _ => do
    let ev ← r.load heap
    .ok ⟨[ev], s.pos, s.paused⟩

/-- `data_read_cb`, unless the source is deferred or a frame waits to be sent. -/
def read (heap : Heap PgNotify) (s : RefStream) (limit : ℕ)
    (remoteClosed : Bool) : Except NotifyFault RefStream :=
  if s.deferred || s.asked.isSome then .ok s
  else do
    let stream ← s.front heap
    match dataReadCb (.event stream) limit remoteClosed with
    | (.deferred, .event stream) =>
      .ok { s with pos := stream.pos, paused := stream.paused, deferred := true }
    | (.frame nread _ _, .event stream) =>
      .ok { s with pos := stream.pos, paused := stream.paused, asked := some nread }
    | (_, _) => .ok s

/-- `queue_.pop_front()`. -/
def popFront (heap : Heap PgNotify) (s : RefStream) :
    Except Misuse (RefStream × Heap PgNotify) :=
  match s.queue with
  | [] => .ok (s, heap)
  | r :: rest => do
    let heap ← r.destroy heap
    .ok ({ s with queue := rest }, heap)

/-- The destructor of the queue. -/
def destroyAll (heap : Heap PgNotify) : List EventRef → Except Misuse (Heap PgNotify)
  | [] => .ok heap
  | r :: rest => do
    let heap ← r.destroy heap
    destroyAll heap rest

end RefStream

/-! ## The worker -/

/-- **A worker**, as far as its event streams go, with the memory of the
notifications. -/
structure NotifyHub (α : Type) [DecidableEq α] where
  heap : Heap PgNotify
  dispatcher : EventDispatcher α
  /-- The streams that are there, by their addresses. -/
  streams : AList fun _ : α => RefStream
  /-- What has been written for them. -/
  text : α → Bytes

/-- **What happens on a worker**: a notification comes in, or what is no matter of
notifications. -/
inductive NotifyHub.Step (α : Type) (N : ℕ) where
  /-- `PQnotifies`, in `check_notif`. -/
  | notify (n : PgNotify)
  | other (e : EventHub.Step α N)

namespace NotifyHub

variable {α : Type} [DecidableEq α] {N : ℕ}

/-- No stream was ever made. -/
def start : NotifyHub α := ⟨.empty, .new, ∅, fun _ => []⟩

/-- The streams, and the memory of the notifications. -/
abbrev Places (α : Type) [DecidableEq α] :=
  Heap PgNotify × AList fun _ : α => RefStream

/-- The loop of `publish`: each stream gets a copy. -/
def submitEach (r : EventRef) (heap : Heap PgNotify)
    (streams : AList fun _ : α => RefStream) :
    List (Option α) → Except NotifyFault (Places α)
  | [] => .ok (heap, streams)
  | none :: vec => submitEach r heap streams vec
  | some es :: vec =>
    match streams.lookup es with
    | none => .error (.hub .dangling)
    | some s => do
      let (copy, heap) ← (r.copyConstruct heap).inMemory
      submitEach r heap (streams.insert es (s.submit copy)) vec

/-- **`EventDispatcher::publish`**, behind the move of its argument. -/
def publish (d : EventDispatcher α) (channel : Bytes) (r : EventRef)
    (heap : Heap PgNotify) (streams : AList fun _ : α => RefStream) :
    Except NotifyFault (Places α) :=
  match d.registry channel with
  | some vec => submitEach r heap streams vec
  | none => .ok (heap, streams)

/-- **The loop of `check_notif`**, for one notification. -/
def checkNotif (k : NotifyHub α) (n : PgNotify) : Except NotifyFault (NotifyHub α) := do
  let (temporary, heap) := SharedNotify.ofPg k.heap n
  let channel : NotifyView := ⟨k.heap.objects.length, .relname, n.relname.length⟩
  let (argument, heap) ← (EventRef.ofNotify channel temporary heap).inMemory
  let (event, argument) := argument.moveConstruct
  let key ← (channel.read heap).inMemory
  let (heap, streams) ← publish k.dispatcher key event heap k.streams
  -- the event of `publish`, then the temporaries of the call
  let heap ← (event.destroy heap).inMemory
  let heap ← (argument.destroy heap).inMemory
  let heap ← (temporary.destroy heap).inMemory
  .ok { k with heap := heap, streams := streams }

/-- A step of one stream that is there. -/
def withStream (k : NotifyHub α) (es : α)
    (f : RefStream → Except NotifyFault (NotifyHub α)) :
    Except NotifyFault (NotifyHub α) :=
  match k.streams.lookup es with
  | none => .error (.hub .impossible)
  | some s => f s

/-- A stream is replaced. -/
def put (k : NotifyHub α) (es : α) (s : RefStream) : NotifyHub α :=
  { k with streams := k.streams.insert es s }

/-- **`send_data_cb`**, with the write buffer behind the header of the frame. -/
def write (k : NotifyHub α) (es : α) (s : RefStream) (wb : Buffer N) :
    Except NotifyFault (NotifyHub α) :=
  match s.asked with
  | none => .error (.hub .impossible)
  | some wlen =>
    -- would block
    if wb.wleft < wlen then .ok k
    else do
      let stream ← s.front k.heap
      match stream.send wb wlen with
      | .error f => .error (.hub (.throws f))
      | .ok (stream, wb') =>
        let s := { s with pos := stream.pos, paused := stream.paused, asked := none }
        let (s, heap) ← if stream.queue = [] then (s.popFront k.heap).inMemory
          else .ok (s, k.heap)
        .ok { k.put es s with
          heap := heap
          text := Function.update k.text es
            (k.text es ++ EventStream.written ⟨wb, wlen⟩ wb') }

/-- **One step.** -/
def step (k : NotifyHub α) : Step α N → Except NotifyFault (NotifyHub α)
  | .notify n => k.checkNotif n
  | .other (.create es) =>
    match k.streams.lookup es with
    | some _ => .error (.hub .impossible)
    | none =>
      .ok { k.put es .start with text := Function.update k.text es [] }
  | .other (.suscribe es channel) =>
    k.withStream es fun _ =>
      .ok { k with dispatcher := k.dispatcher.suscribe channel es }
  | .other (.send es ev) =>
    k.withStream es fun s => .ok (k.put es (s.submit (.plain ev)))
  | .other (.dispatch ev) => do
    let (heap, streams) ←
      publish k.dispatcher ev.channel (.plain ev.event) k.heap k.streams
    .ok { k with heap := heap, streams := streams }
  | .other (.periodic es) =>
    k.withStream es fun s => .ok (k.put es (s.submit (.plain EventStream.pingEvent)))
  | .other (.read es limit remoteClosed) =>
    k.withStream es fun s =>
      -- nghttp2 asks for at least one byte
      if limit = 0 then .error (.hub .impossible)
      else do
        let s ← s.read k.heap limit remoteClosed
        .ok (k.put es s)
  | .other (.write es wb) => k.withStream es fun s => k.write es s wb
  | .other (.destroy es) =>
    k.withStream es fun s => do
      let heap ← (RefStream.destroyAll k.heap s.queue).inMemory
      .ok { k with
        heap := heap
        dispatcher := k.dispatcher.remove es
        streams := k.streams.erase es }

end NotifyHub

/-! ## Events and what they read -/

/-- **The event that a notification means.** -/
def PgNotify.event (n : PgNotify) : Event where
  name := n.relname.takeWhile (· ≠ slash)
  content := .notify n.extra
  fits := by
    have hfits := n.fits
    have hname := (List.takeWhile_prefix (l := n.relname) (· ≠ slash)).length_le
    show _ + n.extra.length + 16 < 2 ^ 64
    omega

/-- It is published on the whole channel. -/
def PgNotify.publication (n : PgNotify) : Publication := ⟨n.relname, n.event⟩

namespace EventRef

/-- The shared object for a notification. -/
def shared (i : ℕ) (n : PgNotify) : SharedNotify :=
  ⟨some i, some ⟨i, .extra, n.extra.length⟩, some i⟩

/-- The event that is made of a notification. -/
def made (i : ℕ) (n : PgNotify) : EventRef :=
  .notified ⟨i, .relname, (n.relname.takeWhile (· ≠ slash)).length⟩
    ⟨i, .relname, n.relname.length⟩ (shared i n)

/-- Which notifications an event owns. -/
def owns : EventRef → List ℕ
  | plain _ => []
  | notified _ _ content => content.ptr.toList

/-- **What an event reads**, among all notifications that ever came. -/
inductive Reads (objects : List PgNotify) : EventRef → Event → Prop where
  | plain (ev : Event) : Reads objects (.plain ev) ev
  | made {i : ℕ} {n : PgNotify} (hn : objects[i]? = some n) :
    Reads objects (made i n) n.event

/-- Later notifications do not matter. -/
theorem Reads.append {objects : List PgNotify} {r : EventRef} {ev : Event}
    (h : Reads objects r ev) (more : List PgNotify) : Reads (objects ++ more) r ev := by
  cases h with
  | plain ev => exact .plain ev
  | made hn =>
    exact .made (List.getElem?_append_left (List.getElem?_eq_some_iff.mp hn).1 ▸ hn)

variable {heap : Heap PgNotify} {held : Multiset ℕ} {r : EventRef} {ev : Event}

/-- **An event that is owned reads what it should.** -/
theorem Reads.load (h : Reads heap.objects r ev) (hc : Counts heap held)
    (howns : ∀ i ∈ r.owns, i ∈ held) : r.load heap = .ok ev := by
  cases h with
  | plain ev => rfl
  | @made i n hn =>
    have hread := hc.read (howns i (List.mem_singleton_self i)) hn
    have hname : (n.relname.take (n.relname.takeWhile (· ≠ slash)).length)
        = n.relname.takeWhile (· ≠ slash) :=
      (List.prefix_iff_eq_take.mp (List.takeWhile_prefix _)).symm
    have hfits := n.event.fits
    unfold EventRef.made EventRef.load shared NotifyView.read
    dsimp only
    rw [hread]
    simp only [Except.ok_bind, Except.inMemory, PgNotify.text, hname, List.take_length]
    exact dif_pos hfits

/-- **So do the events of a whole queue.** -/
theorem forall₂_load {queue : List EventRef} {evs : List Event}
    (h : List.Forall₂ (Reads heap.objects) queue evs) (hc : Counts heap held)
    (howns : ∀ r ∈ queue, ∀ i ∈ r.owns, i ∈ held) :
    List.Forall₂ (fun r ev => EventRef.load heap r = .ok ev) queue evs := by
  induction h with
  | nil => exact .nil
  | cons hr _ ih =>
    exact .cons (hr.load hc (howns _ List.mem_cons_self))
      (ih fun r hmem => howns r (List.mem_cons_of_mem _ hmem))

/-- **A copy** is the same event, and owns as much. -/
theorem Reads.copyConstruct (h : Reads heap.objects r ev) (hc : Counts heap held)
    (howns : ∀ i ∈ r.owns, i ∈ held) :
    ∃ heap', r.copyConstruct heap = .ok (r, heap') ∧ heap'.objects = heap.objects
      ∧ Counts heap' (r.owns + held) := by
  cases h with
  | plain ev => exact ⟨heap, rfl, rfl, (Multiset.zero_add held).symm ▸ hc⟩
  | @made i n hn =>
    obtain ⟨heap', hshare, hobjects, hc'⟩ :=
      hc.share (howns i (List.mem_singleton_self i))
    refine ⟨heap', ?_, hobjects, hc'⟩
    unfold EventRef.made EventRef.copyConstruct SharedNotify.copyConstruct shared
    dsimp only
    rw [hshare]
    rfl

/-- **An event is made of a notification**, and owns it. -/
theorem ofNotify_shared {i : ℕ} {n : PgNotify} (hn : heap.objects[i]? = some n)
    (hc : Counts heap held) (hi : i ∈ held) :
    ∃ heap', ofNotify ⟨i, .relname, n.relname.length⟩ (shared i n) heap
        = .ok (made i n, heap')
      ∧ heap'.objects = heap.objects ∧ Counts heap' (i ::ₘ held) := by
  obtain ⟨heap', hshare, hobjects, hc'⟩ := hc.share hi
  have hread := hc'.read (Multiset.mem_cons_self i held) (hobjects ▸ hn)
  refine ⟨heap', ?_, hobjects, hc'⟩
  unfold ofNotify SharedNotify.copyConstruct shared NotifyView.read
  dsimp only
  rw [hshare]
  simp only [Except.ok_bind, hread, PgNotify.text, List.take_length]
  rfl

/-- **Destroying an event** is giving up what it owns. -/
theorem destroy_eq (r : EventRef) (heap : Heap PgNotify) :
    r.destroy heap = heap.dropAll r.owns := by
  cases r with
  | plain ev => rfl
  | notified name channel content =>
    obtain ⟨pgNotify, payload, ptr⟩ := content
    cases ptr with
    | none => rfl
    | some i => exact (heap.dropAll_singleton i).symm

end EventRef

/-! ## What a stream owns -/

/-- The notifications that a queue owns. -/
def RefStream.owns (s : RefStream) : List ℕ := s.queue.flatMap EventRef.owns

/-- **Destroying a queue** is giving up what it owns. -/
theorem RefStream.destroyAll_eq (heap : Heap PgNotify) (queue : List EventRef) :
    destroyAll heap queue = heap.dropAll (queue.flatMap EventRef.owns) := by
  induction queue generalizing heap with
  | nil => rfl
  | cons r rest ih =>
    rw [destroyAll, List.flatMap_cons, Heap.dropAll_append, EventRef.destroy_eq]
    exact bind_congr fun heap => ih heap

section Streams

variable {α : Type} [DecidableEq α]

/-- **What all streams own.** -/
def owned (streams : AList fun _ : α => RefStream) : Multiset ℕ :=
  (streams.entries.flatMap fun p => p.2.owns : List ℕ)

/-- One stream, and all others. -/
theorem owned_insert (streams : AList fun _ : α => RefStream) (es : α) (s : RefStream) :
    owned (streams.insert es s) = s.owns + owned (streams.erase es) := by
  unfold owned
  rw [AList.entries_insert, List.flatMap_cons, ← Multiset.coe_add]
  rfl

theorem owned_of_lookup {streams : AList fun _ : α => RefStream} {es : α}
    {s : RefStream} (h : streams.lookup es = some s) :
    owned streams = s.owns + owned (streams.erase es) := by
  have hmem : es ∈ streams.entries.keys :=
    AList.mem_keys.mp (AList.lookup_isSome.mp (h ▸ rfl))
  obtain ⟨s', l₁, l₂, -, hentries, herase⟩ := List.exists_of_kerase hmem
  have hs : s' = s := by
    have hin : (⟨es, s'⟩ : Sigma fun _ : α => RefStream) ∈ streams.entries := by
      rw [hentries]
      exact List.mem_append_right _ List.mem_cons_self
    exact Option.some.inj ((AList.mem_lookup_iff.mpr hin).symm.trans h)
  have hrest : (streams.erase es).entries = l₁ ++ l₂ := herase
  unfold owned
  rw [hrest, hentries, hs, List.flatMap_append, List.flatMap_cons, List.flatMap_append,
    ← Multiset.coe_add, ← Multiset.coe_add, ← Multiset.coe_add, ← Multiset.add_assoc,
    ← Multiset.add_assoc, Multiset.add_comm (s.owns : Multiset ℕ)]

theorem owned_of_lookup_none {streams : AList fun _ : α => RefStream} {es : α}
    (h : streams.lookup es = none) : owned (streams.erase es) = owned streams := by
  have hnot : es ∉ streams.entries.keys := fun hmem =>
    AList.lookup_eq_none.mp h (AList.mem_keys.mpr hmem)
  unfold owned
  have herase : (streams.erase es).entries = streams.entries :=
    List.kerase_of_notMem_keys hnot
  rw [herase]

/-- What one stream owns is owned. -/
theorem mem_owned {streams : AList fun _ : α => RefStream} {es : α} {s : RefStream}
    (h : streams.lookup es = some s) {i : ℕ} (hi : i ∈ s.owns) : i ∈ owned streams := by
  rw [owned_of_lookup h]
  exact Multiset.mem_add.mpr (.inl (Multiset.mem_coe.mpr hi))

/-- What is owned is owned by a stream. -/
theorem mem_owned_iff {streams : AList fun _ : α => RefStream} {i : ℕ} :
    i ∈ owned streams ↔ ∃ es s, streams.lookup es = some s ∧ i ∈ s.owns := by
  constructor
  · intro hi
    obtain ⟨⟨es, s⟩, hp, hs⟩ := List.mem_flatMap.mp (Multiset.mem_coe.mp hi)
    exact ⟨es, s, AList.mem_lookup_iff.mpr hp, hs⟩
  · rintro ⟨es, s, hlookup, hs⟩
    exact mem_owned hlookup hs

end Streams

/-! ## The streams of both -/

/-- A stream, of whose queue only the first event can be seen. -/
def EventStream.first (s : EventStream) : EventStream :=
  ⟨s.queue.take 1, s.pos, s.paused⟩

/-- **A stream in memory is the other one**: every event in its queue reads as the
event there. -/
structure RefStream.Shows (objects : List PgNotify) (s : RefStream) (a : Attached) :
    Prop where
  queue : List.Forall₂ (EventRef.Reads objects) s.queue a.stream.queue
  pos : s.pos = a.stream.pos
  paused : s.paused = a.stream.paused
  deferred : s.deferred = a.deferred
  asked : s.asked = a.asked

namespace RefStream

variable {objects : List PgNotify} {s : RefStream} {a : Attached}

theorem shows_start : Shows objects start .start := ⟨.nil, rfl, rfl, rfl, rfl⟩

/-- Later notifications do not matter. -/
theorem Shows.append (h : Shows objects s a) (more : List PgNotify) :
    Shows (objects ++ more) s a :=
  { h with queue := h.queue.imp fun _ _ hr => hr.append more }

/-- **Submitting.** -/
theorem Shows.submit (h : Shows objects s a) {r : EventRef} {ev : Event}
    (hr : r.Reads objects ev) : Shows objects (s.submit r) (a.submit ev) := by
  have hqueue : List.Forall₂ (EventRef.Reads objects) (s.queue ++ [r])
      (a.stream.queue ++ [ev]) :=
    List.rel_append h.queue (.cons hr .nil)
  have hpaused := h.paused
  unfold RefStream.submit Attached.submit EventStream.submit
  dsimp only
  rw [hpaused]
  cases a.stream.paused with
  | true => exact ⟨hqueue, rfl, rfl, rfl, h.asked⟩
  | false => exact ⟨hqueue, h.pos, rfl, h.deferred, h.asked⟩

theorem owns_submit (s : RefStream) (r : EventRef) :
    (s.submit r).owns = s.owns ++ r.owns := by
  have hqueue : (s.submit r).queue = s.queue ++ [r] := by
    unfold submit
    dsimp only
    split_ifs <;> rfl
  unfold owns
  rw [hqueue, List.flatMap_append, List.flatMap_singleton]

/-- **What can be seen of a stream** is the other one, up to its first event. -/
theorem Shows.front (h : Shows objects s a) {heap : Heap PgNotify}
    {held : Multiset ℕ} (hobjects : heap.objects = objects) (hc : Counts heap held)
    (howns : ∀ i ∈ s.owns, i ∈ held) :
    s.front heap = .ok a.stream.first := by
  subst hobjects
  have hqueue := h.queue
  unfold RefStream.front EventStream.first
  unfold owns at howns
  rw [h.pos, h.paused]
  cases hs : s.queue with
  | nil =>
    rw [hs, List.forall₂_nil_left_iff] at hqueue
    rw [hqueue]
    rfl
  | cons r rest =>
    rw [hs, List.forall₂_cons_left_iff] at hqueue
    obtain ⟨ev, rest', hr, -, ha⟩ := hqueue
    have hload := hr.load hc fun i hi => howns i (by
      rw [hs, List.flatMap_cons]
      exact List.mem_append_left _ hi)
    rw [ha]
    dsimp only
    rw [hload]
    rfl

end RefStream

/-- **Whether there is data, and how much**, is a matter of the first event. -/
theorem dataReadCb_front (s : EventStream) (limit : ℕ) (remoteClosed : Bool) :
    ∃ answer paused,
      dataReadCb (.event s) limit remoteClosed
        = (answer, .event { s with paused := paused })
      ∧ dataReadCb (.event s.first) limit remoteClosed
        = (answer, .event { s.first with paused := paused }) := by
  have hremaining : ∃ left paused,
      (DataStream.event s).remaining = (left, .event { s with paused := paused })
      ∧ (DataStream.event s.first).remaining
        = (left, .event { s.first with paused := paused }) := by
    obtain ⟨queue, pos, paused⟩ := s
    cases queue with
    | nil => exact ⟨_, _, rfl, rfl⟩
    | cons ev rest => exact ⟨_, _, rfl, rfl⟩
  obtain ⟨left, paused, hall, hfirst⟩ := hremaining
  unfold dataReadCb
  rw [hall, hfirst]
  dsimp only
  split_ifs
  · exact ⟨_, _, rfl, rfl⟩
  · exact ⟨_, _, rfl, rfl⟩

/-- **So is what is sent**: the others are only left where they are. -/
theorem EventStream.send_front {N : ℕ} (s : EventStream) (wb : Buffer N) (wlen : ℕ) :
    s.send wb wlen
      = s.first.send wb wlen >>= fun r =>
        .ok ({ r.1 with queue := r.1.queue ++ s.queue.drop 1 }, r.2) := by
  obtain ⟨queue, pos, paused⟩ := s
  cases queue with
  | nil => rfl
  | cons ev rest =>
    unfold send first
    dsimp only [List.take_succ_cons, List.take_zero, List.drop_succ_cons,
      List.drop_zero]
    split_ifs with hlen
    · cases writeHead ev wb pos wlen with
      | error f => rfl
      | ok p =>
        simp only [Except.ok_bind]
        cases writeTail ev p.1 p.2.1 p.2.2 with
        | error f => rfl
        | ok q =>
          simp only [Except.ok_bind]
          split_ifs <;> rfl
    · rfl

/-- **Reading.** The queue is left as it is. -/
theorem RefStream.Shows.read {objects : List PgNotify} {s : RefStream} {a : Attached}
    (h : Shows objects s a) {heap : Heap PgNotify}
    (hfront : s.front heap = .ok a.stream.first)
    (N limit : ℕ) (remoteClosed : Bool) :
    ∃ s' a', s.read heap limit remoteClosed = .ok s'
      ∧ a.step (.read limit remoteClosed : Attached.Step N) = .ok a'
      ∧ Shows objects s' a' ∧ s'.queue = s.queue := by
  obtain ⟨answer, paused, hall, hfirst⟩ :=
    dataReadCb_front a.stream limit remoteClosed
  rw [RefStream.read, Attached.step, h.deferred, h.asked]
  split_ifs with hskip
  · exact ⟨s, a, rfl, rfl, h, rfl⟩
  · rw [hfront, Except.ok_bind, hall, hfirst]
    cases answer with
    | deferred =>
      exact ⟨_, _, rfl, rfl, ⟨h.queue, rfl, rfl, rfl, rfl⟩, rfl⟩
    | frame nread eof fin =>
      exact ⟨_, _, rfl, rfl, ⟨h.queue, rfl, rfl, rfl, rfl⟩, rfl⟩

/-- **A send takes the first event** off the queue, or leaves it there. -/
theorem EventStream.send_queue {N : ℕ} {s s' : EventStream} {wb wb' : Buffer N}
    {wlen : ℕ} (h : s.first.send wb wlen = .ok (s', wb')) :
    s'.queue = [] ∨ s'.queue = s.queue.take 1 := by
  rw [EventStream.send_eq_advance h]
  obtain ⟨queue, pos, paused⟩ := s
  cases queue with
  | nil => exact .inl rfl
  | cons ev rest =>
    unfold EventStream.advance EventStream.first
    dsimp only [List.take_succ_cons, List.take_zero]
    split_ifs
    · exact .inl rfl
    · exact .inr rfl

/-- **The first event is destroyed**, if there is one. -/
theorem RefStream.popFront_spec {heap : Heap PgNotify} {held : Multiset ℕ}
    {s : RefStream} (hc : Counts heap (s.owns + held)) :
    ∃ heap', s.popFront heap = .ok ({ s with queue := s.queue.drop 1 }, heap')
      ∧ heap'.objects = heap.objects
      ∧ Counts heap'
        (({ s with queue := s.queue.drop 1 } : RefStream).owns + held) := by
  obtain ⟨queue, pos, paused, deferred, asked⟩ := s
  cases queue with
  | nil => exact ⟨heap, rfl, rfl, hc⟩
  | cons r rest =>
    unfold owns at hc
    rw [List.flatMap_cons, ← Multiset.coe_add, Multiset.add_assoc] at hc
    obtain ⟨heap', hdrop, hobjects, hc'⟩ := hc.dropAll
    refine ⟨heap', ?_, hobjects, hc'⟩
    unfold popFront
    dsimp only
    rw [EventRef.destroy_eq, hdrop]
    rfl

/-! ## The two workers -/

namespace NotifyHub

variable {α : Type} [DecidableEq α] {N : ℕ}

/-- **The streams are the other ones**, at the same addresses. -/
def ShowsAll (objects : List PgNotify) (streams : AList fun _ : α => RefStream)
    (others : α → Option Attached) : Prop :=
  ∀ es, Option.Rel (RefStream.Shows objects) (streams.lookup es) (others es)

variable {objects : List PgNotify} {streams : AList fun _ : α => RefStream}
  {others : α → Option Attached}

/-- A stream is there if the other one is. -/
theorem ShowsAll.cases (h : ShowsAll objects streams others) (es : α) :
    (streams.lookup es = none ∧ others es = none)
      ∨ ∃ s a, streams.lookup es = some s ∧ others es = some a
        ∧ RefStream.Shows objects s a := by
  have hes := h es
  generalize streams.lookup es = x at hes
  generalize others es = y at hes
  cases hes with
  | none => exact .inl ⟨rfl, rfl⟩
  | some hshows => exact .inr ⟨_, _, rfl, rfl, hshows⟩

/-- **One stream is replaced.** -/
theorem ShowsAll.insert (h : ShowsAll objects streams others) {es : α} {s : RefStream}
    {a : Attached} (hs : RefStream.Shows objects s a) :
    ShowsAll objects (streams.insert es s) (Function.update others es (some a)) := by
  intro es'
  by_cases hes : es' = es
  · rw [hes, AList.lookup_insert, Function.update_self]
    exact .some hs
  · rw [AList.lookup_insert_ne hes, Function.update_of_ne hes]
    exact h es'

/-- One stream is destroyed. -/
theorem ShowsAll.erase (h : ShowsAll objects streams others) (es : α) :
    ShowsAll objects (streams.erase es) (Function.update others es none) := by
  intro es'
  by_cases hes : es' = es
  · rw [hes, AList.lookup_erase, Function.update_self]
    exact .none
  · rw [AList.lookup_erase_ne hes, Function.update_of_ne hes]
    exact h es'

/-- Later notifications do not matter. -/
theorem ShowsAll.append (h : ShowsAll objects streams others) (more : List PgNotify) :
    ShowsAll (objects ++ more) streams others := by
  intro es
  rcases h.cases es with ⟨hs, ha⟩ | ⟨s, a, hs, ha, hshows⟩
  · rw [hs, ha]
    exact .none
  · rw [hs, ha]
    exact .some (hshows.append more)

/-- **The worker is the other one**, and the books of the notifications are kept: who
owns them are the queues. -/
structure Mirrors (m : NotifyHub α) (k : EventHub α) : Prop where
  dispatcher : m.dispatcher = k.dispatcher
  text : m.text = k.text
  streams : ShowsAll m.heap.objects m.streams k.streams
  counts : Counts m.heap (owned m.streams)

theorem mirrors_start : Mirrors (start : NotifyHub α) EventHub.start where
  dispatcher := rfl
  text := rfl
  streams _ := .none
  counts := counts_empty

/-- **What a step comes to**: both are as they were to each other, or both fail with
the same fault of the worker. -/
def Follows {σ τ : Type} (R : σ → τ → Prop) (x : Except NotifyFault σ)
    (y : Except EventHub.Mishap τ) : Prop :=
  (∃ s t, x = .ok s ∧ y = .ok t ∧ R s t) ∨ ∃ e, x = .error (.hub e) ∧ y = .error e

/-! ### Publishing -/

variable {heap : Heap PgNotify} {held : Multiset ℕ} {r : EventRef} {ev : Event}

/-- Where publishing leads: to the same streams, which own copies of the event. -/
def Published (objects : List PgNotify) (held : Multiset ℕ) (x : Places α)
    (others : α → Option Attached) : Prop :=
  x.1.objects = objects ∧ ShowsAll objects x.2 others ∧ Counts x.1 (owned x.2 + held)

/-- A stream owns what is submitted to it. -/
theorem owned_submit {es : α} {s : RefStream} (hs : streams.lookup es = some s)
    (r : EventRef) :
    owned (streams.insert es (s.submit r)) = r.owns + owned streams := by
  rw [owned_insert, RefStream.owns_submit, owned_of_lookup hs, ← Multiset.coe_add,
    Multiset.add_comm (s.owns : Multiset ℕ), Multiset.add_assoc]

/-- **The loop submits a copy to each stream**, of an event that somebody owns. -/
theorem submitEach_spec (vec : List (Option α)) (hr : r.Reads heap.objects ev)
    (howns : ∀ i ∈ r.owns, i ∈ held) (hs : ShowsAll heap.objects streams others)
    (hc : Counts heap (owned streams + held)) :
    Follows (Published heap.objects held) (submitEach r heap streams vec)
      (EventHub.submitEach ev others vec) := by
  induction vec generalizing heap streams others with
  | nil => exact .inl ⟨_, _, rfl, rfl, rfl, hs, hc⟩
  | cons slot vec ih =>
    cases slot with
    | none => exact ih hr hs hc
    | some es =>
      rw [submitEach, EventHub.submitEach]
      rcases hs.cases es with ⟨hnone, hnone'⟩ | ⟨s, a, hsome, hsome', hshows⟩
      · rw [hnone, hnone']
        exact .inr ⟨_, rfl, rfl⟩
      · obtain ⟨heap', hcopy, hobjects, hc'⟩ := hr.copyConstruct hc
          fun i hi => Multiset.mem_add.mpr (.inr (howns i hi))
        rw [hsome, hsome', hcopy]
        have hstreams : ShowsAll heap'.objects (streams.insert es (s.submit r))
            (Function.update others es (some (a.submit ev))) :=
          hobjects ▸ hs.insert (hshows.submit hr)
        have hcounts : Counts heap' (owned (streams.insert es (s.submit r)) + held) := by
          rw [owned_submit hsome, Multiset.add_assoc]
          exact hc'
        have hrest := ih (hobjects ▸ hr) hstreams hcounts
        rw [hobjects] at hrest
        exact hrest

/-- **Publishing** an event that somebody owns. -/
theorem publish_spec (d : EventDispatcher α) (channel : Bytes)
    (hr : r.Reads heap.objects ev) (howns : ∀ i ∈ r.owns, i ∈ held)
    (hs : ShowsAll heap.objects streams others)
    (hc : Counts heap (owned streams + held)) :
    Follows (Published heap.objects held) (publish d channel r heap streams)
      (EventHub.publish d ⟨channel, ev⟩ others) := by
  unfold publish EventHub.publish
  cases hvec : d.registry channel with
  | none => exact .inl ⟨_, _, rfl, rfl, rfl, hs, hc⟩
  | some vec => exact submitEach_spec vec hr howns hs hc

/-! ### Steps -/

/-- What a step is for a worker that has the texts by their values. -/
def Step.toHub : Step α N → EventHub.Step α N
  | .notify n => .dispatch n.publication
  | .other e => e

/-- The notifications that come in with a step. -/
def Step.arrives : Step α N → List PgNotify
  | .notify n => [n]
  | .other _ => []

variable {m : NotifyHub α} {k : EventHub α}

/-- Both workers behind a step. -/
def Goes (m : NotifyHub α) (more : List PgNotify) (m' : NotifyHub α) (k' : EventHub α) :
    Prop :=
  m'.Mirrors k' ∧ m'.heap.objects = m.heap.objects ++ more

/-- Two more hold an object. -/
theorem held_twice (held : Multiset ℕ) (i : ℕ) :
    held + (i ::ₘ i ::ₘ 0) = i ::ₘ i ::ₘ held := by
  rw [Multiset.add_comm, Multiset.cons_add, Multiset.cons_add, Multiset.zero_add]

/-- **A notification comes in.** Three own it in the meantime: the temporary of the
call, the event, and then the queues. -/
theorem Mirrors.checkNotif (h : m.Mirrors k) (n : PgNotify) :
    Follows (m.Goes [n]) (m.checkNotif n)
      (k.step (.dispatch n.publication : EventHub.Step α N)) := by
  have hmade := h.counts.make n
  have hn : (m.heap.make n).2.objects[m.heap.objects.length]? = some n :=
    List.getElem?_concat_length
  set i := m.heap.objects.length
  obtain ⟨heap₁, hof, hobjects₁, hc₁⟩ :=
    EventRef.ofNotify_shared hn hmade (Multiset.mem_cons_self i _)
  rw [← hobjects₁] at hn
  replace hobjects₁ : heap₁.objects = m.heap.objects ++ [n] := hobjects₁
  have hread : NotifyView.read ⟨i, .relname, n.relname.length⟩ heap₁
      = .ok n.relname := by
    unfold NotifyView.read
    rw [hc₁.read (Multiset.mem_cons_self i _) hn]
    simp only [Except.ok_bind, PgNotify.text, List.take_length]
  -- the temporary and the event, besides the queues
  have hcounts : Counts heap₁ (owned m.streams + (i ::ₘ i ::ₘ 0)) := by
    rw [held_twice]
    exact hc₁
  have hpublish := publish_spec m.dispatcher n.relname (.made hn)
    (fun j hj => by
      rw [List.mem_singleton.mp hj]
      exact Multiset.mem_cons_self i _)
    (hobjects₁.symm ▸ h.streams.append [n]) hcounts
  have hof : EventRef.ofNotify ⟨i, .relname, n.relname.length⟩
      (SharedNotify.ofPg m.heap n).1 (SharedNotify.ofPg m.heap n).2
      = .ok (.made i n, heap₁) := hof
  rw [NotifyHub.checkNotif, EventHub.step]
  dsimp only
  rw [hof, ← h.dispatcher]
  simp only [Except.inMemory_ok, Except.ok_bind]
  have hmoved : (EventRef.made i n).moveConstruct.1 = .made i n := rfl
  rw [hread, hmoved]
  simp only [Except.inMemory_ok, Except.ok_bind]
  rcases hpublish with ⟨⟨heap₂, streams⟩, others, hok, hok', hobjects₂, hs, hc₂⟩ |
    ⟨e, herr, herr'⟩
  · rw [held_twice] at hc₂
    obtain ⟨heap₃, hdrop, hobjects₃, hc₃⟩ := hc₂.drop
    obtain ⟨heap₄, hdrop', hobjects₄, hc₄⟩ := hc₃.drop
    have hevent : EventRef.destroy heap₂ (.made i n) = .ok heap₃ := hdrop
    have hargument : EventRef.destroy heap₃ (EventRef.made i n).moveConstruct.2
        = .ok heap₃ := rfl
    have htemporary : (SharedNotify.ofPg m.heap n).1.destroy heap₃ = .ok heap₄ := hdrop'
    have hothers : EventHub.publish m.dispatcher n.publication k.streams
        = .ok others := hok'
    have hobjects : heap₄.objects = heap₁.objects :=
      hobjects₄.trans (hobjects₃.trans hobjects₂)
    rw [hothers, hok, Except.ok_bind, hevent]
    simp only [Except.inMemory_ok, Except.ok_bind]
    rw [hargument]
    simp only [Except.inMemory_ok, Except.ok_bind]
    rw [htemporary]
    refine .inl ⟨_, _, rfl, rfl, ⟨rfl, h.text, ?_, hc₄⟩, hobjects.trans hobjects₁⟩
    exact hobjects ▸ hs
  · have hothers : EventHub.publish m.dispatcher n.publication k.streams
        = .error e := herr'
    rw [hothers, herr]
    exact .inr ⟨e, rfl, rfl⟩

/-- **A stream is replaced** by one that owns as much. -/
theorem Mirrors.put (h : m.Mirrors k) {es : α} {s : RefStream} {a : Attached}
    (hshows : s.Shows m.heap.objects a)
    (howned : owned (m.streams.insert es s) = owned m.streams) :
    (m.put es s).Mirrors (k.put es a) where
  dispatcher := h.dispatcher
  text := h.text
  streams := h.streams.insert hshows
  counts := by
    show Counts m.heap (owned (m.streams.insert es s))
    rw [howned]
    exact h.counts

/-- Nothing comes in. -/
theorem goes_of_mirrors {m' : NotifyHub α} {k' : EventHub α} (h : m'.Mirrors k')
    (hobjects : m'.heap.objects = m.heap.objects) : m.Goes [] m' k' :=
  ⟨h, hobjects.trans (List.append_nil _).symm⟩

/-- **A step of one stream** that is there in both. -/
theorem Mirrors.withStream (h : m.Mirrors k) (es : α)
    {f : RefStream → Except NotifyFault (NotifyHub α)}
    {g : Attached → Except EventHub.Mishap (EventHub α)}
    (hfg : ∀ s a, m.streams.lookup es = some s → k.streams es = some a →
      s.Shows m.heap.objects a → Follows (m.Goes []) (f s) (g a)) :
    Follows (m.Goes []) (m.withStream es f) (k.withStream es g) := by
  unfold NotifyHub.withStream EventHub.withStream
  rcases h.streams.cases es with ⟨hs, ha⟩ | ⟨s, a, hs, ha, hshows⟩
  · rw [hs, ha]
    exact .inr ⟨_, rfl, rfl⟩
  · rw [hs, ha]
    exact hfg s a hs ha hshows

/-- **An event that owns nothing** is submitted. -/
theorem Mirrors.submit (h : m.Mirrors k) {es : α} {s : RefStream} {a : Attached}
    (hs : m.streams.lookup es = some s) (hshows : s.Shows m.heap.objects a)
    (ev : Event) : Follows (m.Goes []) (.ok (m.put es (s.submit (.plain ev))))
      (.ok (k.put es (a.submit ev))) :=
  .inl ⟨_, _, rfl, rfl, goes_of_mirrors (h.put (hshows.submit (.plain ev))
    ((owned_submit hs _).trans (Multiset.zero_add _))) rfl⟩

/-- What a stream owns, somebody owns. -/
theorem Mirrors.front (h : m.Mirrors k) {es : α} {s : RefStream} {a : Attached}
    (hs : m.streams.lookup es = some s) (hshows : s.Shows m.heap.objects a) :
    s.front m.heap = .ok a.stream.first :=
  hshows.front rfl h.counts fun _ hi => mem_owned hs hi

/-- **Publishing** what owns nothing. -/
theorem Mirrors.dispatch (h : m.Mirrors k) (ev : Publication) :
    Follows (m.Goes []) (m.step (.other (.dispatch ev) : Step α N))
      (k.step (.dispatch ev : EventHub.Step α N)) := by
  have hcounts : Counts m.heap (owned m.streams + 0) := by
    rw [Multiset.add_zero]
    exact h.counts
  have hpublish := publish_spec m.dispatcher ev.channel (.plain ev.event)
    (fun _ hi => absurd hi List.not_mem_nil) h.streams hcounts
  rw [NotifyHub.step, EventHub.step, ← h.dispatcher]
  rcases hpublish with ⟨⟨heap, streams⟩, others, hok, hok', hobjects, hs, hc⟩ |
    ⟨e, herr, herr'⟩
  · have hothers : EventHub.publish m.dispatcher ev k.streams = .ok others := hok'
    rw [hok, hothers]
    rw [Multiset.add_zero] at hc
    exact .inl ⟨_, _, rfl, rfl, goes_of_mirrors
      ⟨rfl, h.text, hobjects.symm ▸ hs, hc⟩ hobjects⟩
  · have hothers : EventHub.publish m.dispatcher ev k.streams = .error e := herr'
    rw [herr, hothers]
    exact .inr ⟨e, rfl, rfl⟩

/-- **Writing.** An event leaves its queue with its last byte. -/
theorem Mirrors.write (h : m.Mirrors k) (es : α) (wb : Buffer N) :
    Follows (m.Goes []) (m.step (.other (.write es wb)))
      (k.step (.write es wb)) := by
  rw [NotifyHub.step, EventHub.step]
  refine h.withStream es fun s a hs ha hshows => ?_
  rw [NotifyHub.write, hshows.asked]
  cases a.asked with
  | none => exact .inr ⟨_, rfl, rfl⟩
  | some wlen =>
    dsimp only
    split_ifs with hroom
    · exact .inl ⟨_, _, rfl, rfl, goes_of_mirrors h rfl⟩
    · rw [h.front hs hshows, Except.ok_bind, EventStream.send_front a.stream]
      cases hsend : a.stream.first.send wb wlen with
      | error f =>
        exact .inr ⟨_, rfl, rfl⟩
      | ok p =>
        obtain ⟨stream, wb'⟩ := p
        have hc := h.counts
        rw [owned_of_lookup hs] at hc
        rw [h.text]
        dsimp only [Except.ok_bind]
        split_ifs with hdone
        · obtain ⟨heap, hpop, hobjects, hc'⟩ := RefStream.popFront_spec
            (s := ⟨s.queue, stream.pos, stream.paused, s.deferred, none⟩) hc
          rw [hpop]
          refine .inl ⟨_, _, rfl, rfl,
            goes_of_mirrors ⟨h.dispatcher, rfl, ?_, ?_⟩ hobjects⟩
          · refine hobjects.symm ▸ h.streams.insert ⟨?_, rfl, rfl, hshows.deferred, rfl⟩
            rw [hdone]
            exact List.forall₂_drop 1 hshows.queue
          · exact (owned_insert m.streams es _).symm ▸ hc'
        · have hqueue := (EventStream.send_queue hsend).resolve_left hdone
          refine .inl ⟨_, _, rfl, rfl, goes_of_mirrors ⟨h.dispatcher, rfl, ?_, ?_⟩ rfl⟩
          · refine h.streams.insert ⟨?_, rfl, rfl, hshows.deferred, rfl⟩
            rw [hqueue, List.take_append_drop]
            exact hshows.queue
          · exact (owned_insert m.streams es _).symm ▸ hc

/-- **Every step is the same one in both.** -/
theorem Mirrors.step (h : m.Mirrors k) (e : Step α N) :
    Follows (m.Goes e.arrives) (m.step e) (k.step e.toHub) := by
  cases e with
  | notify n => exact h.checkNotif n
  | other e =>
    cases e with
    | create es =>
      show Follows _ (NotifyHub.step m (.other (.create es)))
        (EventHub.step k (.create es))
      rw [NotifyHub.step, EventHub.step]
      rcases h.streams.cases es with ⟨hs, ha⟩ | ⟨s, a, hs, ha, -⟩
      · rw [hs, ha]
        refine .inl ⟨_, _, rfl, rfl, goes_of_mirrors ⟨h.dispatcher, ?_,
          h.streams.insert RefStream.shows_start, ?_⟩ rfl⟩
        · exact congrArg (Function.update · es []) h.text
        · show Counts m.heap (owned (m.streams.insert es .start))
          rw [owned_insert, owned_of_lookup_none hs]
          exact (Multiset.zero_add _).symm ▸ h.counts
      · rw [hs, ha]
        exact .inr ⟨_, rfl, rfl⟩
    | suscribe es channel =>
      refine h.withStream es fun s a hs ha hshows => ?_
      exact .inl ⟨_, _, rfl, rfl, goes_of_mirrors
        ⟨congrArg (·.suscribe channel es) h.dispatcher, h.text, h.streams,
          h.counts⟩ rfl⟩
    | send es ev => exact h.withStream es fun s a hs _ hshows => h.submit hs hshows ev
    | periodic es => exact h.withStream es fun s a hs _ hshows => h.submit hs hshows _
    | dispatch ev => exact h.dispatch ev
    | read es limit remoteClosed =>
      refine h.withStream es fun s a hs ha hshows => ?_
      split_ifs with hlimit
      · exact .inr ⟨_, rfl, rfl⟩
      · obtain ⟨s', a', hread, hstep, hshows', hqueue⟩ :=
          hshows.read (h.front hs hshows) N limit remoteClosed
        rw [hread, hstep]
        refine .inl ⟨_, _, rfl, rfl, goes_of_mirrors (h.put hshows' ?_) rfl⟩
        rw [owned_insert, owned_of_lookup hs, RefStream.owns, hqueue]
        rfl
    | write es wb => exact h.write es wb
    | destroy es =>
      refine h.withStream es fun s a hs ha hshows => ?_
      have hc := h.counts
      rw [owned_of_lookup hs] at hc
      obtain ⟨heap, hdrop, hobjects, hc'⟩ := hc.dropAll
      have hdestroy : RefStream.destroyAll m.heap s.queue = .ok heap :=
        (RefStream.destroyAll_eq _ _).trans hdrop
      rw [hdestroy]
      exact .inl ⟨_, _, rfl, rfl, goes_of_mirrors
        ⟨congrArg (·.remove es) h.dispatcher, h.text,
          hobjects.symm ▸ h.streams.erase es, hc'⟩ hobjects⟩

/-! ### Runs -/

/-- **The whole run.** -/
theorem Mirrors.exec (h : m.Mirrors k) (steps : List (Step α N)) :
    Follows (m.Goes (steps.flatMap Step.arrives)) (Run.exec NotifyHub.step m steps)
      (Run.exec EventHub.step k (steps.map Step.toHub)) := by
  induction steps generalizing m k with
  | nil => exact .inl ⟨m, k, rfl, rfl, goes_of_mirrors h rfl⟩
  | cons e steps ih =>
    rcases h.step e with ⟨m₁, k₁, hm, hk, h₁, hobjects₁⟩ | ⟨f, hm, hk⟩
    · rw [List.map_cons, Run.exec_cons_of_ok hm, Run.exec_cons_of_ok hk]
      rcases ih h₁ with ⟨m', k', hm', hk', h', hobjects'⟩ | hfail
      · refine .inl ⟨m', k', hm', hk', h', ?_⟩
        rw [hobjects', hobjects₁, List.flatMap_cons, List.append_assoc]
      · exact .inr hfail
    · rw [List.map_cons, Run.exec, Run.exec, hm, hk]
      exact .inr ⟨f, rfl, rfl⟩

/-- Among the notifications, each event in a queue is read as what it is. -/
theorem Mirrors.load (h : m.Mirrors k) (es : α) :
    Option.Rel (fun s a => List.Forall₂ (fun r ev => EventRef.load m.heap r = .ok ev)
      s.queue a.stream.queue) (m.streams.lookup es) (k.streams es) := by
  rcases h.streams.cases es with ⟨hs, ha⟩ | ⟨s, a, hs, ha, hshows⟩
  · rw [hs, ha]
    exact .none
  · rw [hs, ha]
    exact .some (EventRef.forall₂_load hshows.queue h.counts fun r hr i hi =>
      mem_owned hs (List.mem_flatMap.mpr ⟨r, hr, hi⟩))

/-- **The memory of the notifications behind any run.** A worker whose events are
views into notifications goes through the same steps as the one that has the texts by
their values, and where that one fails it fails in the same way: no access to the
memory ever goes wrong. The same has been written, and every event that waits still
reads as it came. Of the notifications that came in, those have been freed that no
queue has any more, each of them once. -/
theorem memory_of_run (steps : List (Step α N)) :
    (∃ (m : NotifyHub α) (k : EventHub α), Run.exec step start steps = .ok m
        ∧ Run.exec EventHub.step EventHub.start (steps.map Step.toHub) = .ok k
        ∧ m.text = k.text
        ∧ (∀ es, Option.Rel (fun s a => List.Forall₂
            (fun r ev => EventRef.load m.heap r = .ok ev) s.queue a.stream.queue)
            (m.streams.lookup es) (k.streams es))
        ∧ m.heap.objects = steps.flatMap Step.arrives
        ∧ m.heap.freed.Nodup
        ∧ ∀ i, i ∈ m.heap.freed ↔ i < (steps.flatMap Step.arrives).length
            ∧ ∀ es s, m.streams.lookup es = some s → i ∉ s.owns)
      ∨ ∃ e, Run.exec step (start : NotifyHub α) steps = .error (.hub e)
        ∧ Run.exec EventHub.step (EventHub.start : EventHub α) (steps.map Step.toHub)
          = .error e := by
  rcases mirrors_start.exec steps with ⟨m, k, hm, hk, h, hobjects⟩ | hfail
  · have hall : m.heap.objects = steps.flatMap Step.arrives := hobjects
    refine .inl ⟨m, k, hm, hk, h.text, h.load, hall, h.counts.nodup, fun i => ?_⟩
    rw [h.counts.mem_freed, hall, mem_owned_iff]
    simp only [not_exists, not_and]
  · exact .inr hfail

end NotifyHub
