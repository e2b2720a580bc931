import Mathlib.Algebra.Order.Ring.Nat
import Mathlib.Data.List.Basic
import Mathlib.Tactic.Common

/-!
# Byte strings, and what can go wrong with them

The server handles requests as `std::string_view`s, that is, as runs of
bytes cut by position and count. A string view is a `List UInt8` here, and
the operations the sources use are the ones below: `substr`, which throws
`std::out_of_range` when its start lies beyond the end and cuts its count
at the end otherwise, and `find`, which returns a position or `npos`.

Positions are `size_t`, so a subtraction that would be negative wraps to a
value near `2⁶⁴` (`subSizeT`). That matters exactly where the sources hand
such a difference to `substr`.

`Fault` collects the ways a modelled call can end other than by returning:
an exception, a failed assertion, or an access or a computation the language
leaves undefined.
-/

/-- A byte string. -/
abbrev Bytes := List UInt8

/-- The bytes of an ASCII literal of the sources. -/
def bytes (s : String) : Bytes := s.toList.map (fun c => c.toNat.toUInt8)

/-- The slash between the levels of a path. -/
def slash : UInt8 := 47

/-- **How a call can fail to return.** -/
inductive Fault where
  /-- `std::out_of_range`, thrown by `substr`. -/
  | outOfRange
  /-- A failed `assert`. -/
  | assertion
  /-- A write past the end of a buffer. -/
  | overrun
  /-- An index past the end of a `std::vector`. -/
  | indexOutOfRange
  /-- A resumption of a coroutine that is not suspended. -/
  | resumeDone
  /-- A computation in `int` beyond its range. -/
  | intOverflow
  deriving DecidableEq, Repr

/-- What follows a call that returned. Proved by rewriting and not by `rfl`:
as a definitional equation it would make the kernel evaluate the call that
comes next. -/
@[simp] theorem Except.ok_bind {ε α β : Type} (a : α) (f : α → Except ε β) :
    (Except.ok a >>= f) = f a := by
  simp only [bind, Except.bind]

/-- What follows a call that failed is not run. -/
@[simp] theorem Except.error_bind {ε α β : Type} (e : ε)
    (f : α → Except ε β) : (Except.error e >>= f) = Except.error e := by
  simp only [bind, Except.bind]

/-- Two calls in turn that return: the first has returned, and then the
second. -/
theorem Except.exists_of_bind_eq_ok {ε α β : Type} {x : Except ε α}
    {f : α → Except ε β} {b : β} (h : (x >>= f) = Except.ok b) :
    ∃ a, x = Except.ok a ∧ f a = Except.ok b := by
  cases x with
  | error e =>
    rw [Except.error_bind] at h
    cases h
  | ok a =>
    rw [Except.ok_bind] at h
    exact ⟨a, rfl, h⟩

/-- A call that returns, and what is made of its result. -/
theorem Except.exists_of_map_eq_ok {ε α β : Type} {x : Except ε α} {f : α → β}
    {b : β} (h : x.map f = Except.ok b) : ∃ a, x = Except.ok a ∧ f a = b := by
  cases x with
  | error e => cases h
  | ok a => exact ⟨a, rfl, Except.ok.inj h⟩

/-- Subtraction of two `size_t` values. -/
def subSizeT (a b : ℕ) : ℕ := (a + 2 ^ 64 - b) % 2 ^ 64

/-- Without a borrow the subtraction is the one of the natural numbers. -/
theorem subSizeT_of_le {a b : ℕ} (h : b ≤ a) (ha : a < 2 ^ 64) :
    subSizeT a b = a - b := by
  unfold subSizeT
  rw [show a + 2 ^ 64 - b = (a - b) + 2 ^ 64 by omega, Nat.add_mod_right]
  exact Nat.mod_eq_of_lt (by omega)

/-- A subtraction that borrows wraps to the top of the range. -/
theorem subSizeT_of_lt {a b : ℕ} (h : a < b) :
    subSizeT a b = a + 2 ^ 64 - b := by
  unfold subSizeT
  exact Nat.mod_eq_of_lt (by omega)

namespace StringView

variable {α : Type}

/-- `s.substr(pos, n)`. -/
def substr (s : List α) (pos n : ℕ) : Except Fault (List α) :=
  if pos ≤ s.length then .ok ((s.drop pos).take n) else .error .outOfRange

theorem substr_of_le {s : List α} {pos : ℕ} (n : ℕ) (h : pos ≤ s.length) :
    substr s pos n = .ok ((s.drop pos).take n) := if_pos h

theorem substr_of_lt {s : List α} {pos : ℕ} (n : ℕ) (h : s.length < pos) :
    substr s pos n = .error .outOfRange := if_neg (by omega)

end StringView

/-! ## Slices

What a write emits is a slice of a longer text; consecutive slices join. -/

section Slices

variable {α : Type}

/-- The `n` elements of `s` from position `pos` on. -/
def slice (s : List α) (pos n : ℕ) : List α := (s.drop pos).take n

@[simp] theorem slice_zero (s : List α) (pos : ℕ) : slice s pos 0 = [] :=
  List.take_zero

/-- Consecutive slices join. -/
theorem slice_append_slice (s : List α) (pos n k : ℕ) :
    slice s pos n ++ slice s (pos + n) k = slice s pos (n + k) := by
  rw [slice, slice, slice, List.take_add, List.drop_drop]

/-- **A slice of a concatenation** is a slice of each part, the second one
starting where the first one ends. -/
theorem slice_append (s t : List α) (pos n : ℕ) :
    slice (s ++ t) pos n
      = slice s pos n ++ slice t (pos - s.length) (n - (s.length - pos)) := by
  rw [slice, slice, slice, List.drop_append, List.take_append, List.length_drop]

/-- A slice past the end is empty. -/
theorem slice_of_le {s : List α} {pos : ℕ} (n : ℕ) (h : s.length ≤ pos) :
    slice s pos n = [] := by
  rw [slice, List.drop_eq_nil_of_le h, List.take_nil]

/-- A slice is cut at the end of the text. -/
theorem slice_min (s : List α) (pos n : ℕ) :
    slice s pos (min n (s.length - pos)) = slice s pos n := by
  rw [slice, slice, ← List.length_drop, ← List.take_take, List.take_length]

/-- How long a slice is. -/
theorem length_slice_eq (s : List α) (pos n : ℕ) :
    (slice s pos n).length = min n (s.length - pos) := by
  rw [slice, List.length_take, List.length_drop]

/-- A slice inside the text has the length asked for. -/
theorem length_slice {s : List α} {pos n : ℕ} (h : pos + n ≤ s.length) :
    (slice s pos n).length = n := by
  rw [length_slice_eq]
  omega

/-- **Cutting a middle part of a text is slicing the text**: the cut ends
where the part ends. -/
theorem slice_middle {a b c : List α} {pos : ℕ} (n : ℕ) (h : a.length ≤ pos) :
    slice b (pos - a.length) n
      = slice (a ++ (b ++ c)) pos (slice b (pos - a.length) n).length := by
  rw [length_slice_eq, slice_append, slice_of_le _ h, List.nil_append,
    Nat.sub_eq_zero_of_le h, Nat.sub_zero, slice_append, slice_min,
    Nat.sub_eq_zero_of_le (min_le_right _ _), slice_zero, List.append_nil]

/-- The slice of everything is the text. -/
theorem slice_length (s : List α) : slice s 0 s.length = s := by
  rw [slice, List.drop_zero, List.take_length]

/-- What a slice leaves is the text from its end on. -/
theorem slice_append_drop (s : List α) (pos n : ℕ) :
    slice s pos n ++ s.drop (pos + n) = s.drop pos := by
  rw [slice, ← List.drop_drop]
  exact List.take_append_drop n (s.drop pos)

end Slices
