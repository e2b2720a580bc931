import Mathlib.Data.List.Basic

/-!
# A queue with a wake-up call

One thread puts values into a queue and calls the thread that takes them
out. The call is a flag: several calls before the taker has woken up are one.
A taker that wakes up takes the flag down and then takes values until it finds
the queue empty.

Between the two halves of putting a value – into the queue, then the call –
the taker may do anything. No value is passed over (`SignalQueue.given`), and
none is left lying: where values wait, a call is outstanding, or the taker is
at it, or the call is still to be made (`SignalQueue.Awake`). So a taker that
runs on its own, from wherever it is, takes everything
(`SignalQueue.takeAll_spec`).
-/

/-- **A queue with a wake-up call.** -/
structure SignalQueue (α : Type) where
  waiting : List α
  /-- The flag. -/
  signalled : Bool
  /-- Whether the taker is taking values. -/
  draining : Bool
  /-- What has been taken so far. -/
  taken : List α
  deriving DecidableEq, Repr

namespace SignalQueue

variable {α : Type}

/-- Nothing was ever put into it. -/
def empty : SignalQueue α := ⟨[], false, false, []⟩

/-- A value is put into the queue. -/
def enqueue (q : SignalQueue α) (x : α) : SignalQueue α :=
  { q with waiting := q.waiting ++ [x] }

/-- The call. -/
def signal (q : SignalQueue α) : SignalQueue α := { q with signalled := true }

/-- The taker wakes up. -/
def wake (q : SignalQueue α) : SignalQueue α :=
  { q with signalled := false, draining := true }

/-- The taker takes a value, or finds that there is none and is done. -/
def tryDequeue (q : SignalQueue α) : Option α × SignalQueue α :=
  match q.waiting with
  | [] => (none, { q with draining := false })
  | x :: rest => (some x, { q with waiting := rest, taken := q.taken ++ [x] })

/-- What was put into it so far. -/
def given (q : SignalQueue α) : List α := q.taken ++ q.waiting

/-- **Nothing is left lying**: where values wait, a call is outstanding, or the
taker is at it, or a call is `promised`. -/
def Awake (q : SignalQueue α) (promised : Prop) : Prop :=
  q.waiting ≠ [] → q.signalled = true ∨ q.draining = true ∨ promised

theorem awake_empty (promised : Prop) : (empty : SignalQueue α).Awake promised :=
  fun h => absurd rfl h

theorem given_enqueue (q : SignalQueue α) (x : α) :
    (q.enqueue x).given = q.given ++ [x] :=
  (List.append_assoc q.taken q.waiting [x]).symm

theorem given_signal (q : SignalQueue α) : q.signal.given = q.given := rfl

theorem given_wake (q : SignalQueue α) : q.wake.given = q.given := rfl

/-- Taking a value passes over none. -/
theorem given_tryDequeue (q : SignalQueue α) :
    q.tryDequeue.2.given = q.given := by
  unfold tryDequeue
  split
  · rfl
  · rename_i x rest hwaiting
    show (q.taken ++ [x]) ++ rest = q.taken ++ q.waiting
    rw [hwaiting, List.append_assoc]
    rfl

/-- The call is the promised one. -/
theorem awake_signal (q : SignalQueue α) (promised : Prop) :
    q.signal.Awake promised :=
  fun _ => .inl rfl

/-- A taker that wakes up is at it. -/
theorem awake_wake (q : SignalQueue α) (promised : Prop) :
    q.wake.Awake promised :=
  fun _ => .inr (.inl rfl)

/-- **The taker stops only at an empty queue.** -/
theorem Awake.tryDequeue {q : SignalQueue α} {promised : Prop}
    (h : q.Awake promised) : q.tryDequeue.2.Awake promised := by
  unfold SignalQueue.tryDequeue
  split
  · rename_i hwaiting
    exact fun hrest => absurd hwaiting hrest
  · rename_i x rest hwaiting
    exact fun _ => h (by rw [hwaiting]; exact List.cons_ne_nil x rest)

/-- The taker, on its own, until it is done. -/
def takeAll (q : SignalQueue α) : ℕ → SignalQueue α
  | 0 => q
  | n + 1 => (q.tryDequeue.2).takeAll n

/-- **A taker that runs on its own takes everything.** -/
theorem takeAll_spec (q : SignalQueue α) :
    (q.takeAll (q.waiting.length + 1)).taken = q.given
      ∧ (q.takeAll (q.waiting.length + 1)).waiting = []
      ∧ (q.takeAll (q.waiting.length + 1)).draining = false := by
  induction hwaiting : q.waiting generalizing q with
  | nil =>
    have hstop : q.tryDequeue.2 = { q with draining := false } := by
      rw [tryDequeue, hwaiting]
    rw [List.length_nil, takeAll, takeAll, hstop, given, hwaiting,
      List.append_nil]
    exact ⟨rfl, rfl, rfl⟩
  | cons x rest ih =>
    have htake : q.tryDequeue.2
        = { q with waiting := rest, taken := q.taken ++ [x] } := by
      rw [tryDequeue, hwaiting]
    have hgiven := q.given_tryDequeue
    have hrest := ih q.tryDequeue.2 (by rw [htake])
    rw [List.length_cons, takeAll, ← hgiven]
    exact hrest

end SignalQueue
