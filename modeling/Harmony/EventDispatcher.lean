import Harmony.EventDeferral
import Mathlib.Data.List.DropRight
import Mathlib.Data.List.ReduceOption
import Mathlib.Data.Multiset.Count
import Mathlib.Data.Multiset.Filter
import Mathlib.Logic.Function.Iterate

/-!
# The event dispatcher

An event stream subscribes to a channel, and what is published on the channel is
submitted to it. The dispatcher keeps a vector of streams for each channel. A
stream that is removed leaves null pointers behind, in the vectors of all
channels, and the next subscription takes the first of them.

What the vectors stand for is a multiset of streams for each channel
(`EventDispatcher.subscriptions`): subscribing adds to one of them, removing
takes a stream out of all of them, and where the streams stand does not matter.
So a publication is submitted to a stream as often as the stream was subscribed
to the channel since it was last removed (`EventDispatcher.publish_run`).
-/

/-! ## Slots -/

namespace Slots

variable {α : Type}

/-- The first free slot is taken, or else a new one. -/
def put : List (Option α) → α → List (Option α)
  | [], a => [some a]
  | none :: slots, a => some a :: slots
  | some b :: slots, a => some b :: put slots a

/-- **What the slots hold.** -/
def held (slots : List (Option α)) : Multiset α := slots.reduceOption

@[simp] theorem held_nil : held ([] : List (Option α)) = 0 := rfl

@[simp] theorem held_cons_none (slots : List (Option α)) :
    held (none :: slots) = held slots := by
  unfold held
  rw [List.reduceOption_cons_of_none]

@[simp] theorem held_cons_some (a : α) (slots : List (Option α)) :
    held (some a :: slots) = a ::ₘ held slots := by
  unfold held
  rw [List.reduceOption_cons_of_some, Multiset.cons_coe]

/-- **Taking a slot** adds to what is held, whichever slot it is. -/
theorem held_put (slots : List (Option α)) (a : α) :
    held (put slots a) = a ::ₘ held slots := by
  induction slots with
  | nil => rfl
  | cons slot slots ih =>
    cases slot with
    | none => rw [put, held_cons_some, held_cons_none]
    | some b => rw [put, held_cons_some, held_cons_some, ih, Multiset.cons_swap]

variable [DecidableEq α]

/-- The slots of `a` are freed. -/
def free (slots : List (Option α)) (a : α) : List (Option α) :=
  slots.map fun slot => if slot = some a then none else slot

/-- **Freeing slots** takes out all there is of `a`, and nothing else. -/
theorem held_free (slots : List (Option α)) (a : α) :
    held (free slots a) = (held slots).filter (· ≠ a) := by
  induction slots with
  | nil => rfl
  | cons slot slots ih =>
    have hcons : free (slot :: slots) a
        = (if slot = some a then none else slot) :: free slots a := rfl
    cases slot with
    | none =>
      rw [hcons, if_neg (Option.some_ne_none a).symm, held_cons_none,
        held_cons_none, ih]
    | some b =>
      by_cases hb : b = a
      · subst hb
        rw [hcons, if_pos rfl, held_cons_none, held_cons_some, ih,
          Multiset.filter_cons_of_neg]
        exact not_not.mpr rfl
      · rw [hcons, if_neg fun h => hb (Option.some.inj h), held_cons_some,
          held_cons_some, ih, Multiset.filter_cons_of_pos]
        exact hb

end Slots

/-! ## Subscriptions -/

/-- **The subscriptions**: the streams of each channel, with how often they are
subscribed to it. -/
abbrev Subscriptions (α : Type) := Bytes → Multiset α

namespace Subscriptions

variable {α : Type}

/-- A subscription more. -/
def suscribe (m : Subscriptions α) (channel : Bytes) (es : α) :
    Subscriptions α :=
  Function.update m channel (es ::ₘ m channel)

/-- All the subscriptions of a stream less. -/
def remove [DecidableEq α] (m : Subscriptions α) (es : α) : Subscriptions α :=
  fun channel => (m channel).filter (· ≠ es)

end Subscriptions

/-! ## The dispatcher -/

/-- **An event with its channel.** -/
structure Publication where
  channel : Bytes
  event : Event
  deriving DecidableEq

/-- `EventStream::submit`, with what nghttp2 knows about the stream. -/
def Attached.submit (k : Attached) (ev : Event) : Attached :=
  let (stream, resumed) := k.stream.submit ev
  { k with
    stream := stream
    deferred := if resumed then false else k.deferred
    submitted := k.submitted ++ [ev] }

/-- So submitting is a step of the stream. -/
theorem Attached.step_submit {N : ℕ} (k : Attached) (ev : Event) :
    k.step (.submit ev : Step N) = .ok (k.submit ev) := rfl

/-- **`EventDispatcher`**, with the vectors of `registry_`. Streams are known by
their identity, and `none` is a null pointer. -/
structure EventDispatcher (α : Type) where
  registry : Bytes → Option (List (Option α))

namespace EventDispatcher

variable {α : Type}

/-- A dispatcher without channels. -/
def new : EventDispatcher α := ⟨fun _ => none⟩

/-- **`EventDispatcher::suscribe`.** -/
def suscribe (d : EventDispatcher α) (channel : Bytes) (es : α) :
    EventDispatcher α :=
  match d.registry channel with
  | some vec => ⟨Function.update d.registry channel (some (Slots.put vec es))⟩
  | none => ⟨Function.update d.registry channel (some [some es])⟩

/-- **What the vectors stand for.** -/
def subscriptions (d : EventDispatcher α) : Subscriptions α := fun channel =>
  match d.registry channel with
  | some vec => Slots.held vec
  | none => 0

/-- **Subscribing adds a subscription**, in a freed slot or in a new one. -/
theorem subscriptions_suscribe (d : EventDispatcher α) (channel : Bytes)
    (es : α) :
    (d.suscribe channel es).subscriptions
      = d.subscriptions.suscribe channel es := by
  funext c
  unfold suscribe Subscriptions.suscribe
  by_cases hc : c = channel
  · subst hc
    rw [Function.update_self]
    unfold subscriptions
    cases d.registry c with
    | none =>
      dsimp only
      rw [Function.update_self]
      rfl
    | some vec =>
      dsimp only
      rw [Function.update_self]
      exact Slots.held_put vec es
  · rw [Function.update_of_ne hc]
    unfold subscriptions
    cases d.registry channel with
    | none =>
      dsimp only
      rw [Function.update_of_ne hc]
    | some vec =>
      dsimp only
      rw [Function.update_of_ne hc]

variable [DecidableEq α]

/-- **`EventDispatcher::remove`.** -/
def remove (d : EventDispatcher α) (es : α) : EventDispatcher α :=
  ⟨fun channel => (d.registry channel).map fun vec => Slots.free vec es⟩

/-- **Removing takes out all subscriptions of a stream**, and no other. -/
theorem subscriptions_remove (d : EventDispatcher α) (es : α) :
    (d.remove es).subscriptions = d.subscriptions.remove es := by
  funext c
  unfold subscriptions Subscriptions.remove remove
  dsimp only
  cases d.registry c with
  | none => rfl
  | some vec => exact Slots.held_free vec es

/-- The loop of `publish`. -/
def submitAll (ev : Event) (streams : α → Attached) :
    List (Option α) → α → Attached
  | [] => streams
  | none :: vec => submitAll ev streams vec
  | some es :: vec =>
    submitAll ev (Function.update streams es ((streams es).submit ev)) vec

/-- **`EventDispatcher::publish`**: what becomes of the streams. -/
def publish (d : EventDispatcher α) (ev : Publication) (streams : α → Attached) :
    α → Attached :=
  match d.registry ev.channel with
  | some vec => submitAll ev.event streams vec
  | none => streams

/-- **The loop submits to a stream** as often as the slots hold it. -/
theorem submitAll_apply (ev : Event) (vec : List (Option α))
    (streams : α → Attached) (s : α) :
    submitAll ev streams vec s
      = (fun k => k.submit ev)^[(Slots.held vec).count s] (streams s) := by
  induction vec generalizing streams with
  | nil =>
    rw [submitAll, Slots.held_nil, Multiset.count_zero,
      Function.iterate_zero_apply]
  | cons slot vec ih =>
    cases slot with
    | none => rw [submitAll, Slots.held_cons_none, ih]
    | some es =>
      rw [submitAll, Slots.held_cons_some, ih]
      by_cases hs : s = es
      · subst hs
        rw [Function.update_self, Multiset.count_cons_self,
          Function.iterate_succ_apply]
      · rw [Function.update_of_ne hs, Multiset.count_cons_of_ne hs]

/-- **A publication is submitted to a stream** as often as the stream is
subscribed to the channel. -/
theorem publish_apply (d : EventDispatcher α) (ev : Publication)
    (streams : α → Attached) (s : α) :
    d.publish ev streams s
      = (fun k => k.submit ev.event)^[(d.subscriptions ev.channel).count s]
        (streams s) := by
  unfold publish subscriptions
  cases d.registry ev.channel with
  | none => rw [Multiset.count_zero, Function.iterate_zero_apply]
  | some vec => exact submitAll_apply ev.event vec streams s

/-! ## Histories -/

/-- **A call.** -/
inductive Call (α : Type) where
  | suscribe (channel : Bytes) (es : α)
  | remove (es : α)
  | publish (ev : Publication)
  deriving DecidableEq

/-- What a call does to the dispatcher. A publication leaves it as it is. -/
def call (d : EventDispatcher α) : Call α → EventDispatcher α
  | .suscribe channel es => d.suscribe channel es
  | .remove es => d.remove es
  | .publish _ => d

/-- **The calls in turn**, on a new dispatcher. -/
def run (calls : List (Call α)) : EventDispatcher α := calls.foldl call new

/-- The calls since a stream was last removed. -/
def since (es : α) (calls : List (Call α)) : List (Call α) :=
  calls.rtakeWhile fun c => c ≠ .remove es

/-- **How often a stream was subscribed** to a channel since it was last
removed. -/
def timesSuscribed (calls : List (Call α)) (channel : Bytes) (es : α) : ℕ :=
  (since es calls).count (.suscribe channel es)

section Since

variable {es : α} {channel : Bytes} (calls : List (Call α))

/-- A removal starts the count anew. -/
theorem timesSuscribed_remove :
    timesSuscribed (calls ++ [.remove es]) channel es = 0 := by
  unfold timesSuscribed since
  rw [List.rtakeWhile_concat, if_neg (by simp), List.count_nil]

/-- Any other call adds one if it is a subscription of the stream to the
channel. -/
theorem timesSuscribed_concat {c : Call α} (hc : c ≠ .remove es) :
    timesSuscribed (calls ++ [c]) channel es
      = timesSuscribed calls channel es
        + if c = .suscribe channel es then 1 else 0 := by
  unfold timesSuscribed since
  rw [List.rtakeWhile_concat, if_pos (decide_eq_true hc), List.count_append,
    List.count_singleton]
  simp only [beq_iff_eq]

end Since

/-- **A call adjusts the subscriptions** as it adjusts the count. -/
theorem count_subscriptions_call {d : EventDispatcher α} {calls : List (Call α)}
    {channel : Bytes} {es : α}
    (h : (d.subscriptions channel).count es = timesSuscribed calls channel es)
    (c : Call α) :
    ((d.call c).subscriptions channel).count es
      = timesSuscribed (calls ++ [c]) channel es := by
  cases c with
  | publish ev =>
    have hne : Call.publish ev ≠ .remove es := nofun
    rw [timesSuscribed_concat calls hne, if_neg nofun, ← h]
    rfl
  | suscribe c es' =>
    have hne : Call.suscribe c es' ≠ .remove es := nofun
    rw [timesSuscribed_concat calls hne, ← h, call, subscriptions_suscribe]
    unfold Subscriptions.suscribe
    by_cases hc : channel = c
    · subst hc
      rw [Function.update_self, Multiset.count_cons]
      simp only [Call.suscribe.injEq, true_and, eq_comm]
    · have hother : Call.suscribe c es' ≠ .suscribe channel es :=
        fun heq => hc (Call.suscribe.inj heq).1.symm
      rw [Function.update_of_ne hc, if_neg hother]
      rfl
  | remove es' =>
    rw [call, subscriptions_remove]
    unfold Subscriptions.remove
    by_cases hes : es = es'
    · subst hes
      rw [timesSuscribed_remove, Multiset.count_filter_of_neg]
      exact not_not.mpr rfl
    · rw [timesSuscribed_concat calls fun heq => hes (Call.remove.inj heq).symm,
        if_neg nofun, Multiset.count_filter_of_pos, h]
      · rfl
      · exact hes

/-- **The vectors hold a stream** as often as it was subscribed since it was last
removed, behind all calls. -/
theorem count_subscriptions_run (calls : List (Call α)) (channel : Bytes)
    (es : α) :
    ((run calls).subscriptions channel).count es
      = timesSuscribed calls channel es := by
  induction calls using List.reverseRecOn with
  | nil => rfl
  | append_singleton calls c ih =>
    unfold run
    rw [List.foldl_append, List.foldl_cons, List.foldl_nil]
    exact count_subscriptions_call ih c

/-- Submitting an event `n` times appends it `n` times. -/
theorem submitted_iterate (ev : Event) (n : ℕ) (k : Attached) :
    ((fun k => k.submit ev)^[n] k).submitted
      = k.submitted ++ List.replicate n ev := by
  induction n generalizing k with
  | zero => exact (List.append_nil _).symm
  | succ n ih =>
    rw [Function.iterate_succ_apply, ih, List.replicate_succ]
    exact List.append_assoc _ _ _

/-- **A publication is submitted to a stream exactly as often** as the stream was
subscribed to the channel since it was last removed, after any calls and
whatever state the streams are in. -/
theorem publish_run (calls : List (Call α)) (ev : Publication)
    (streams : α → Attached) (s : α) :
    (run calls).publish ev streams s
        = (fun k => k.submit ev.event)^[timesSuscribed calls ev.channel s]
          (streams s)
      ∧ ((run calls).publish ev streams s).submitted
        = (streams s).submitted
          ++ List.replicate (timesSuscribed calls ev.channel s) ev.event := by
  rw [publish_apply, count_subscriptions_run]
  exact ⟨rfl, submitted_iterate ev.event _ _⟩

end EventDispatcher
