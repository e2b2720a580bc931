import Mathlib.Data.List.Basic
import Mathlib.Data.List.Induction
import Mathlib.Order.Nat
import Mathlib.Tactic.Common

/-!
# Paths resolved by their text

A path is a walk through a tree of directories: a component either stays,
or climbs to the directory above, or descends to a named one. Where a walk
leads, as far as its text says, is a `Place`: how far above the start, and
down which names from there. From the top of the tree there is no way up,
and climbing stays.

What is asked of such a walk is whether it stays below the place another
walk has led to. `Place.inside_andThen` answers this for a walk that is
continued: it must climb no higher than the names of the first walk, and
where it climbs, it must come down again by the same names.
-/

/-- A component of a path. -/
inductive Component (α : Type) where
  /-- Stay, as for `.` and for the empty component. -/
  | here
  /-- Climb, as for `..`. -/
  | up
  /-- Descend. -/
  | name (a : α)
  deriving DecidableEq, Repr

/-- **Where a walk leads**, seen from its start. -/
structure Place (α : Type) where
  /-- How far above the start. -/
  ups : ℕ
  /-- The names passed on the way down from there. -/
  names : List α
  deriving DecidableEq, Repr

namespace Place

variable {α : Type}

/-- The start. -/
def start : Place α := ⟨0, []⟩

/-- One component further. At the `top` of the tree there is no way up. -/
def go (top : Bool) (p : Place α) : Component α → Place α
  | .here => p
  | .up =>
    if p.names = [] then (if top then p else { p with ups := p.ups + 1 })
    else { p with names := p.names.dropLast }
  | .name a => { p with names := p.names ++ [a] }

/-- A walk from a place. -/
def walk (top : Bool) (p : Place α) (cs : List (Component α)) : Place α :=
  cs.foldl (go top) p

/-- Where a walk leads when it is taken from another place than the
start. -/
def andThen (top : Bool) (p q : Place α) : Place α :=
  if q.ups ≤ p.names.length then
    ⟨p.ups, p.names.take (p.names.length - q.ups) ++ q.names⟩
  else
    ⟨if top then p.ups else p.ups + (q.ups - p.names.length), q.names⟩

/-- A place at or below another one. -/
def Inside (r p : Place α) : Prop := p.ups = r.ups ∧ r.names <+: p.names

/-- **A walk comes back**: it climbs to where it started from at most, and
where it climbs, it comes down again by the names it climbed past. -/
def ComesBack (top : Bool) (r q : Place α) : Prop :=
  (top = true ∨ q.ups ≤ r.names.length)
    ∧ r.names.drop (r.names.length - q.ups) <+: q.names

theorem walk_append (top : Bool) (p : Place α) (cs ds : List (Component α)) :
    walk top p (cs ++ ds) = walk top (walk top p cs) ds :=
  List.foldl_append

/-- A walk that climbs no higher than the names of the place it is taken
from. -/
theorem andThen_of_le (top : Bool) (p : Place α) {k : ℕ} (l : List α)
    (h : k ≤ p.names.length) :
    andThen top p ⟨k, l⟩ = ⟨p.ups, p.names.take (p.names.length - k) ++ l⟩ :=
  if_pos h

/-- A walk that climbs higher. -/
theorem andThen_of_lt (top : Bool) (p : Place α) {k : ℕ} (l : List α)
    (h : p.names.length < k) :
    andThen top p ⟨k, l⟩
      = ⟨if top then p.ups else p.ups + (k - p.names.length), l⟩ :=
  if_neg (Nat.not_le.mpr h)

/-- Climbing past a name. -/
theorem go_up_of_ne_nil (top : Bool) (k : ℕ) {l : List α} (h : l ≠ []) :
    go top ⟨k, l⟩ .up = ⟨k, l.dropLast⟩ :=
  if_neg h

/-- Climbing from where no name is left. -/
theorem go_up_nil (top : Bool) (k : ℕ) :
    go top (⟨k, []⟩ : Place α) .up = ⟨if top then k else k + 1, []⟩ := by
  cases top <;> rfl

/-- Climbing goes past the names of the place the walk is taken from. -/
theorem go_andThen_up_nil (top : Bool) (p : Place α) (k : ℕ) :
    go top (andThen top p ⟨k, []⟩) .up = andThen top p ⟨k + 1, []⟩ := by
  rcases Nat.lt_trichotomy p.names.length k with hgt | heq | hlt
  · rw [andThen_of_lt top p [] hgt, go_up_nil,
      andThen_of_lt top p [] (Nat.lt_succ_of_lt hgt), Nat.succ_sub hgt.le]
    cases top <;> rfl
  · rw [andThen_of_le top p [] heq.ge, heq, Nat.sub_self, List.take_zero,
      List.append_nil, go_up_nil,
      andThen_of_lt top p [] (heq ▸ Nat.lt_succ_self k), heq,
      Nat.add_sub_cancel_left]
  · have hne : p.names.take (p.names.length - k) ≠ [] := by
      rw [← List.length_pos_iff, List.length_take_of_le (Nat.sub_le _ _)]
      exact Nat.sub_pos_of_lt hlt
    rw [andThen_of_le top p [] hlt.le, List.append_nil,
      go_up_of_ne_nil top _ hne, andThen_of_le top p [] hlt, List.append_nil,
      List.dropLast_eq_take, List.length_take_of_le (Nat.sub_le _ _),
      List.take_take, Nat.sub_sub, min_eq_left (by omega)]

/-- One component after a place that was reached from another one. -/
theorem go_andThen (top : Bool) (p q : Place α) (c : Component α) :
    go top (andThen top p q) c = andThen top p (go false q c) := by
  obtain ⟨k, l⟩ := q
  cases c with
  | here => rfl
  | name a =>
    show _ = andThen top p ⟨k, l ++ [a]⟩
    rcases Nat.lt_or_ge p.names.length k with hlt | hle
    · rw [andThen_of_lt top p l hlt, andThen_of_lt top p _ hlt]
      rfl
    · rw [andThen_of_le top p l hle, andThen_of_le top p _ hle,
        ← List.append_assoc]
      rfl
  | up =>
    by_cases hl : l = []
    · subst hl
      exact go_andThen_up_nil top p k
    · have hdrop : ∀ l' : List α, (l' ++ l).dropLast = l' ++ l.dropLast :=
        fun l' => List.dropLast_append_of_ne_nil hl
      rw [go_up_of_ne_nil false k hl]
      rcases Nat.lt_or_ge p.names.length k with hlt | hle
      · rw [andThen_of_lt top p l hlt, go_up_of_ne_nil top _ hl,
          andThen_of_lt top p _ hlt]
      · rw [andThen_of_le top p l hle, andThen_of_le top p _ hle,
          go_up_of_ne_nil top _ (by simp [hl]), hdrop]

/-- **A walk from a place is the walk from the start, moved there.** -/
theorem walk_eq_andThen (top : Bool) (p : Place α) (cs : List (Component α)) :
    walk top p cs = andThen top p (walk false start cs) := by
  induction cs using List.reverseRec with
  | nil =>
    show p = andThen top p ⟨0, []⟩
    rw [andThen_of_le top p [] (Nat.zero_le _), Nat.sub_zero, List.take_length,
      List.append_nil]
  | append_singleton cs c ih =>
    rw [walk_append, walk_append, ih]
    exact go_andThen top p _ c

/-- **A continued walk stays below where it was continued from exactly where
it comes back.** -/
theorem inside_andThen (top : Bool) (r q : Place α) :
    r.Inside (andThen top r q) ↔ ComesBack top r q := by
  obtain ⟨k, l⟩ := q
  unfold Inside ComesBack
  dsimp only
  rcases Nat.lt_or_ge r.names.length k with hlt | hle
  · rw [andThen_of_lt top r l hlt, Nat.sub_eq_zero_of_le hlt.le, List.drop_zero]
    have hups : (if top then r.ups else r.ups + (k - r.names.length))
        = r.ups ↔ top = true := by
      cases top
      · simp only [Bool.false_eq_true, if_false, iff_false]
        omega
      · simp
    simp [hups, hlt.not_ge]
  · rw [andThen_of_le top r l hle]
    have hsplit : r.names <+: r.names.take (r.names.length - k) ++ l
        ↔ r.names.drop (r.names.length - k) <+: l := by
      conv_lhs =>
        lhs
        rw [← List.take_append_drop (r.names.length - k) r.names]
      exact List.prefix_append_right_inj _
    simp [hsplit, hle]

instance [DecidableEq α] (top : Bool) (r q : Place α) :
    Decidable (ComesBack top r q) :=
  inferInstanceAs (Decidable (_ ∧ _))

end Place
