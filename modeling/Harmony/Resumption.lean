import Harmony.Run
import Mathlib.Logic.Function.Basic

/-!
# Programs that wait for answers

A program in direct style that acts on a shared state, asks questions and goes
on with the answers, until it returns a value: a `Resumption`. Where such a
program calls another one and waits for its value, it is the one behind the
other (`Resumption.bind`); run as far as it goes without an answer, it ends
with a value or with a question (`Resumption.settle`).

`Direct` runs any number of such programs over one shared state. Questions
are answered in the order in which they were asked, by whomever, and the answer
to a program that has been given up is dropped. It is the plain meaning of
programs that wait, without any of the machinery by which a language makes them
wait.
-/

/-- **A program that waits for answers**: it returns a value, acts and sees the
outcome, or asks and sees the answer. -/
inductive Resumption (Q V A R : Type) where
  | ret (v : V)
  | act (a : A) (k : R → Resumption Q V A R)
  | ask (q : Q) (k : V → Resumption Q V A R)

/-- **How far a program gets** without an answer. -/
inductive Settled (Q V A R : Type) where
  | done (v : V)
  | asks (q : Q) (k : V → Resumption Q V A R)

variable {Q V A R S : Type}

namespace Resumption

/-- A program, and another one with its value. -/
def bind (t : Resumption Q V A R) (f : V → Resumption Q V A R) :
    Resumption Q V A R :=
  match t with
  | .ret v => f v
  | .act a k => .act a fun r => (k r).bind f
  | .ask q k => .ask q fun v => (k v).bind f

variable (perform : A → S → R × S)

/-- **A program, as far as it gets** without an answer. -/
def settle : Resumption Q V A R → S → Settled Q V A R × S
  | .ret v, s => (.done v, s)
  | .act a k, s => (k (perform a s).1).settle (perform a s).2
  | .ask q k, s => (.asks q k, s)

/-- The second program goes on from where the first one ends. -/
theorem settle_bind_of_done {t : Resumption Q V A R} {s s' : S} {v : V}
    (h : t.settle perform s = (.done v, s')) (f : V → Resumption Q V A R) :
    (t.bind f).settle perform s = (f v).settle perform s' := by
  induction t generalizing s with
  | ret u =>
    cases h
    rfl
  | act a k ih => exact ih _ h
  | ask q k ih => cases h

/-- Where the first program asks, both do. -/
theorem settle_bind_of_asks {t : Resumption Q V A R} {s s' : S} {q : Q}
    {k : V → Resumption Q V A R} (h : t.settle perform s = (.asks q k, s'))
    (f : V → Resumption Q V A R) :
    (t.bind f).settle perform s = (.asks q fun v => (k v).bind f, s') := by
  induction t generalizing s with
  | ret u => cases h
  | act a k' ih => exact ih _ h
  | ask q' k' ih =>
    cases h
    rfl

end Resumption

/-! ## Many programs -/

/-- Where a program stands. -/
inductive Standing (Q V A R : Type) where
  | waits (k : V → Resumption Q V A R)
  | finished (v : V)

/-- What can be seen of it. -/
inductive Progress (V : Type) where
  | waiting
  | finished (v : V)
  deriving DecidableEq, Repr

/-- Where it stands, as can be seen. -/
def Standing.progress : Standing Q V A R → Progress V
  | .waits _ => .waiting
  | .finished v => .finished v

/-- **Programs in direct style** over one shared state. -/
structure Direct (Q V A R S : Type) where
  shared : S
  /-- The programs, by their numbers. -/
  programs : ℕ → Option (Standing Q V A R)
  /-- The questions that have not been answered, with who asks. -/
  queue : List (ℕ × Q)
  /-- The number of the next program. -/
  next : ℕ

/-- **What happens to programs**; what they are is read off `body`. No question
is passed over: the answers come in the order of the questions. -/
inductive ProgramEvent (P V : Type) where
  | start (p : P)
  /-- The first question is answered. -/
  | answer (v : V)
  /-- A program is given up. -/
  | close (i : ℕ)

namespace Direct

/-- No program was ever started. -/
def start (s : S) : Direct Q V A R S := ⟨s, fun _ => none, [], 0⟩

/-- A program has settled. -/
def settled (d : Direct Q V A R S) (i : ℕ) : Settled Q V A R × S →
    Direct Q V A R S
  | (.done v, s) =>
    { d with
      shared := s
      programs := Function.update d.programs i (some (.finished v)) }
  | (.asks q k, s) =>
    { d with
      shared := s
      programs := Function.update d.programs i (some (.waits k))
      queue := d.queue ++ [(i, q)] }

variable (perform : A → S → R × S) {P : Type} (body : P → Resumption Q V A R)

/-- **One event**, if it can happen. -/
def step (d : Direct Q V A R S) : ProgramEvent P V →
    Except Unit (Direct Q V A R S)
  | .start p =>
    .ok ({ d with next := d.next + 1 }.settled d.next
      ((body p).settle perform d.shared))
  | .answer v =>
    match d.queue with
    | [] => .error ()
    | (i, _) :: rest =>
      match d.programs i with
      | some (.waits k) =>
        .ok ({ d with queue := rest }.settled i ((k v).settle perform d.shared))
      -- nobody waits for it any more
      | _ => .ok { d with queue := rest }
  | .close i =>
    match d.programs i with
    | none => .error ()
    | some _ => .ok { d with programs := Function.update d.programs i none }

end Direct
