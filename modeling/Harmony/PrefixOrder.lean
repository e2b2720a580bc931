import Mathlib.Data.List.Basic
import Mathlib.Order.Nat
import Mathlib.Tactic.Common

/-!
# Patterns in the order of a prefix tree

A prefix tree built by inserting patterns one after the other has a child
for every first symbol, in the order in which the symbols first came up, and
below a child the tree of the patterns that start with its symbol. A search
that tries the children of a node in order, and the node itself only when
all of them have failed, therefore meets the patterns in an order that can
be read off the list they were inserted in: `Precedes`.

Nothing here is about a particular tree. `R` is the list of patterns
inserted, each with a value.
-/

namespace PrefixOrder

variable {α β : Type} [DecidableEq α]

/-- The patterns starting with a symbol, without it. -/
def below (a : α) (R : List (List α × β)) : List (List α × β) :=
  R.filterMap (fun r => match r.1 with
    | [] => none
    | b :: t => if b = a then some (t, r.2) else none)

/-- Some pattern starts with the symbol. -/
def Starts (a : α) (R : List (List α × β)) : Prop :=
  ∃ r ∈ R, r.1.head? = some a

/-- Where the symbol first comes up as a first symbol. -/
def firstAt (a : α) (R : List (List α × β)) : ℕ :=
  R.findIdx (fun r => decide (r.1.head? = some a))

/-- **The order of the search**: a pattern comes before its own prefixes,
and patterns that part come in the order in which the symbols they part with
first came up there. -/
def Precedes : List (List α × β) → List α → List α → Prop
  | _, [], _ => False
  | _, _ :: _, [] => True
  | R, a :: j, b :: k =>
    if a = b then Precedes (below a R) j k else firstAt a R < firstAt b R

/-! ## The patterns below a symbol -/

@[simp] theorem mem_below (a : α) (R : List (List α × β)) (t : List α)
    (x : β) : (t, x) ∈ below a R ↔ (a :: t, x) ∈ R := by
  unfold below
  rw [List.mem_filterMap]
  constructor
  · rintro ⟨⟨_ | ⟨b, t'⟩, y⟩, hr, h⟩
    · cases h
    · dsimp only at h
      split_ifs at h with hb
      cases h
      rwa [← hb]
  · intro h
    exact ⟨(a :: t, x), h, if_pos rfl⟩

theorem below_append (a : α) (R S : List (List α × β)) :
    below a (R ++ S) = below a R ++ below a S :=
  List.filterMap_append

/-- A pattern is found below its own first symbol. -/
theorem below_singleton_self (a : α) (t : List α) (x : β) :
    below a [(a :: t, x)] = [(t, x)] := by
  simp [below]

/-- A pattern is not found below another symbol. -/
theorem below_singleton_ne {a b : α} (h : b ≠ a) (t : List α) (x : β) :
    below a [(b :: t, x)] = [] := by
  simp [below, h]

/-- The empty pattern is below no symbol. -/
theorem below_singleton_nil (a : α) (x : β) : below a [(([] : List α), x)] = [] :=
  rfl

/-- Below a first symbol there are patterns. -/
theorem below_ne_nil {a : α} {R : List (List α × β)} (h : Starts a R) :
    below a R ≠ [] := by
  obtain ⟨⟨_ | ⟨b, t⟩, x⟩, hr, hh⟩ := h
  · cases hh
  · cases hh
    exact List.ne_nil_of_mem ((mem_below a R t x).mpr hr)

omit [DecidableEq α] in
/-- One more pattern, one more first symbol. -/
theorem starts_append (a : α) (R : List (List α × β)) (r : List α × β) :
    Starts a (R ++ [r]) ↔ Starts a R ∨ r.1.head? = some a := by
  simp [Starts, or_and_right, exists_or]

/-- Where no pattern starts with a symbol, none is below it. -/
theorem below_eq_nil {a : α} {R : List (List α × β)} (h : ¬ Starts a R) :
    below a R = [] := by
  refine List.eq_nil_iff_forall_not_mem.mpr fun r hr => h ?_
  exact ⟨_, (mem_below a R r.1 r.2).mp hr, rfl⟩

/-! ## Where a symbol first comes up -/

theorem firstAt_lt_length {a : α} {R : List (List α × β)} (h : Starts a R) :
    firstAt a R < R.length := by
  obtain ⟨r, hr, hh⟩ := h
  exact List.findIdx_lt_length_of_exists ⟨r, hr, decide_eq_true hh⟩

/-- Later patterns do not change where a symbol first came up. -/
theorem firstAt_append {a : α} {R : List (List α × β)} (h : Starts a R)
    (S : List (List α × β)) : firstAt a (R ++ S) = firstAt a R := by
  unfold firstAt
  rw [List.findIdx_append]
  exact if_pos (firstAt_lt_length h)

/-- A symbol that has not come up yet comes up later. -/
theorem length_le_firstAt {a : α} {R : List (List α × β)} (h : ¬ Starts a R)
    (S : List (List α × β)) : R.length ≤ firstAt a (R ++ S) := by
  unfold firstAt
  rw [List.findIdx_append, if_neg]
  · exact Nat.le_add_left _ _
  · intro hlt
    refine h ⟨R[List.findIdx _ R], List.getElem_mem hlt, ?_⟩
    exact of_decide_eq_true (List.findIdx_getElem (w := hlt))

/-- Different first symbols first come up at different places. -/
theorem eq_of_firstAt_eq {a b : α} {R : List (List α × β)} (h : Starts a R)
    (hab : firstAt a R = firstAt b R) : a = b := by
  have ha := firstAt_lt_length h
  have hb := ha
  rw [hab] at hb
  have ha' := of_decide_eq_true (List.findIdx_getElem (w := ha))
  have hb' := of_decide_eq_true (List.findIdx_getElem (w := hb))
  unfold firstAt at hab
  simp only [hab] at ha'
  exact Option.some.inj (ha'.symm.trans hb')

/-- **Any two patterns inserted are met in one order or the other.** -/
theorem precedes_trichotomy (R : List (List α × β)) (j k : List α)
    (hj : ∃ x, (j, x) ∈ R) (hk : ∃ x, (k, x) ∈ R) :
    j = k ∨ Precedes R j k ∨ Precedes R k j := by
  induction j generalizing R k with
  | nil =>
    cases k with
    | nil => exact Or.inl rfl
    | cons b k => exact Or.inr (Or.inr trivial)
  | cons a j ih =>
    cases k with
    | nil => exact Or.inr (Or.inl trivial)
    | cons b k =>
      by_cases hab : a = b
      · subst hab
        have hih := ih (below a R) k
          (hj.imp fun x h => (mem_below a R j x).mpr h)
          (hk.imp fun x h => (mem_below a R k x).mpr h)
        simpa [Precedes] using hih
      · obtain ⟨x, hx⟩ := hj
        have hstart : Starts a R := ⟨_, hx, rfl⟩
        have hne : firstAt a R ≠ firstAt b R :=
          fun h => hab (eq_of_firstAt_eq hstart h)
        simp only [Precedes, if_neg hab, if_neg (Ne.symm hab)]
        exact Or.inr (Nat.lt_or_gt_of_ne hne)

end PrefixOrder
