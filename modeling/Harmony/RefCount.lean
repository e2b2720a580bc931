import Harmony.StringView
import Mathlib.Data.List.Nodup
import Mathlib.Data.Multiset.AddSub
import Mathlib.Data.Multiset.Count
import Mathlib.Logic.Function.Basic

/-!
# Counting owners

An object that is owned together is freed by the last of its owners. A heap of
such objects knows how many owners each has, and who reads an object, shares it
or gives it up must be one of them: for an object that is gone there is nothing
to read or to count (`RefCount.Misuse`).

Who the owners are is a matter of the program. It keeps the books if, at every
point, each object has as many owners as it is held by (`RefCount.Counts`, the
holders being a multiset). Then nothing it does with what it holds can fail, and
what has been freed is what is held no more, each object once.
-/

namespace RefCount

/-- An object is not there, or not any more. -/
inductive Misuse where
  | gone
  deriving DecidableEq, Repr

/-- **A heap of shared objects**: those that were ever made, the number of owners
that each has, and those that were freed, in turn. -/
structure Heap (β : Type) where
  objects : List β
  uses : ℕ → ℕ
  freed : List ℕ

namespace Heap

variable {β : Type}

/-- Nothing was made. -/
def empty : Heap β := ⟨[], fun _ => 0, []⟩

/-- **A new object**, with one owner. -/
def make (h : Heap β) (b : β) : ℕ × Heap β :=
  (h.objects.length,
    ⟨h.objects ++ [b], Function.update h.uses h.objects.length 1, h.freed⟩)

/-- An owner reads. -/
def read (h : Heap β) (i : ℕ) : Except Misuse β :=
  if h.uses i = 0 then .error .gone
  else
    match h.objects[i]? with
    | some b => .ok b
    | none => .error .gone

/-- **An owner more.** -/
def share (h : Heap β) (i : ℕ) : Except Misuse (Heap β) :=
  if h.uses i = 0 then .error .gone
  else .ok { h with uses := Function.update h.uses i (h.uses i + 1) }

/-- **An owner less**; the last one frees the object. -/
def drop (h : Heap β) (i : ℕ) : Except Misuse (Heap β) :=
  if h.uses i = 0 then .error .gone
  else .ok { h with
    uses := Function.update h.uses i (h.uses i - 1)
    freed := if h.uses i = 1 then h.freed ++ [i] else h.freed }

end Heap

open Heap

variable {β : Type} {h h' : Heap β} {held : Multiset ℕ} {i : ℕ}

/-- **The books are kept**: each object has as many owners as it is held by, and
what was freed is what is held no more, each object once. -/
structure Counts (h : Heap β) (held : Multiset ℕ) : Prop where
  uses : ∀ i, h.uses i = held.count i
  made : ∀ i ∈ held, i < h.objects.length
  nodup : h.freed.Nodup
  mem_freed : ∀ i, i ∈ h.freed ↔ i < h.objects.length ∧ i ∉ held

theorem counts_empty : Counts (empty : Heap β) 0 where
  uses _ := rfl
  made _ h := absurd h (Multiset.notMem_zero _)
  nodup := List.nodup_nil
  mem_freed _ := iff_of_false List.not_mem_nil fun h => Nat.not_lt_zero _ h.1

/-- What is held has owners. -/
theorem Counts.uses_ne_zero (hc : Counts h held) (hi : i ∈ held) : h.uses i ≠ 0 := by
  rw [hc.uses]
  exact (Multiset.count_pos.mpr hi).ne'

/-- **What is held can be read.** -/
theorem Counts.read (hc : Counts h held) (hi : i ∈ held) {b : β}
    (hb : h.objects[i]? = some b) : h.read i = .ok b := by
  rw [Heap.read, if_neg (hc.uses_ne_zero hi), hb]

/-- **A new object** is held by the one who made it. -/
theorem Counts.make (hc : Counts h held) (b : β) :
    Counts (h.make b).2 (h.objects.length ::ₘ held) where
  uses j := by
    show Function.update h.uses h.objects.length 1 j = _
    by_cases hj : j = h.objects.length
    · -- nobody can have held what was not there
      have hfresh : h.objects.length ∉ held := fun hmem => lt_irrefl _ (hc.made _ hmem)
      rw [hj, Function.update_self, Multiset.count_cons_self,
        Multiset.count_eq_zero_of_notMem hfresh]
    · rw [Function.update_of_ne hj, Multiset.count_cons_of_ne hj, hc.uses]
  made j hj := by
    show j < (h.objects ++ [b]).length
    rw [List.length_append, List.length_singleton]
    rcases Multiset.mem_cons.mp hj with rfl | hmem
    · exact Nat.lt_succ_self _
    · exact Nat.lt_succ_of_lt (hc.made j hmem)
  nodup := hc.nodup
  mem_freed j := by
    show j ∈ h.freed ↔ j < (h.objects ++ [b]).length ∧ _
    rw [hc.mem_freed, List.length_append, List.length_singleton, Multiset.mem_cons,
      not_or, ← and_assoc]
    refine and_congr_left fun _ => ⟨fun hlt => ⟨by omega, hlt.ne⟩, ?_⟩
    rintro ⟨hlt, hne⟩
    omega

/-- **Sharing** what is held. -/
theorem Counts.share (hc : Counts h held) (hi : i ∈ held) :
    ∃ h', h.share i = .ok h' ∧ h'.objects = h.objects ∧ Counts h' (i ::ₘ held) := by
  have hsame : ∀ j, j ∈ i ::ₘ held ↔ j ∈ held := fun j =>
    ⟨fun h => (Multiset.mem_cons.mp h).elim (fun heq => heq ▸ hi) id,
      Multiset.mem_cons_of_mem⟩
  refine ⟨_, if_neg (hc.uses_ne_zero hi), rfl, ?_, ?_, hc.nodup, ?_⟩
  · intro j
    show Function.update h.uses i (h.uses i + 1) j = _
    by_cases hj : j = i
    · rw [hj, Function.update_self, Multiset.count_cons_self, hc.uses]
    · rw [Function.update_of_ne hj, Multiset.count_cons_of_ne hj, hc.uses]
  · exact fun j hj => hc.made j ((hsame j).mp hj)
  · intro j
    rw [hsame]
    exact hc.mem_freed j

/-- **Giving up** what is held. -/
theorem Counts.drop (hc : Counts h (i ::ₘ held)) :
    ∃ h', h.drop i = .ok h' ∧ h'.objects = h.objects ∧ Counts h' held := by
  have hmem := Multiset.mem_cons_self i held
  have huses : h.uses i = held.count i + 1 := by
    rw [hc.uses, Multiset.count_cons_self]
  have hone : h.uses i = 1 ↔ i ∉ held := by
    rw [huses, ← Multiset.count_eq_zero]
    omega
  have hkept : i ∉ h.freed := fun hf => ((hc.mem_freed i).mp hf).2 hmem
  refine ⟨_, if_neg (hc.uses_ne_zero hmem), rfl, ?_, ?_, ?_, ?_⟩
  · intro j
    show Function.update h.uses i (h.uses i - 1) j = _
    by_cases hj : j = i
    · rw [hj, Function.update_self, huses, Nat.add_sub_cancel]
    · rw [Function.update_of_ne hj, hc.uses, Multiset.count_cons_of_ne hj]
  · exact fun j hj => hc.made j (Multiset.mem_cons_of_mem hj)
  · show (if h.uses i = 1 then h.freed ++ [i] else h.freed).Nodup
    split_ifs
    · exact List.nodup_append.mpr ⟨hc.nodup, List.nodup_singleton i, fun j hj k hk =>
        fun heq => hkept (List.mem_singleton.mp hk ▸ heq ▸ hj)⟩
    · exact hc.nodup
  · intro j
    show j ∈ (if h.uses i = 1 then h.freed ++ [i] else h.freed) ↔ _
    have hj := hc.mem_freed j
    rw [Multiset.mem_cons, not_or] at hj
    by_cases hji : j = i
    · subst hji
      split_ifs with hlast
      · exact iff_of_true (List.mem_append_right _ (List.mem_singleton_self j))
          ⟨hc.made j hmem, hone.mp hlast⟩
      · exact iff_of_false hkept fun hnot => hlast (hone.mpr hnot.2)
    · rw [and_iff_right hji] at hj
      split_ifs
      · rw [List.mem_append, List.mem_singleton, or_iff_left hji, hj]
      · exact hj

/-! ## Several at once -/

/-- Giving up one object after the other. -/
def Heap.dropAll (h : Heap β) : List ℕ → Except Misuse (Heap β)
  | [] => .ok h
  | i :: is => do
    let h ← h.drop i
    h.dropAll is

theorem Heap.dropAll_singleton (h : Heap β) (i : ℕ) : h.dropAll [i] = h.drop i := by
  rw [Heap.dropAll]
  cases h.drop i <;> rfl

theorem Heap.dropAll_append (h : Heap β) (is js : List ℕ) :
    h.dropAll (is ++ js) = h.dropAll is >>= fun h => h.dropAll js := by
  induction is generalizing h with
  | nil => rfl
  | cons i is ih =>
    rw [List.cons_append, Heap.dropAll, Heap.dropAll]
    cases h.drop i with
    | error e => rfl
    | ok h' => exact ih h'

/-- **Giving up all of them.** -/
theorem Counts.dropAll {is : List ℕ} (hc : Counts h ((is : Multiset ℕ) + held)) :
    ∃ h', h.dropAll is = .ok h' ∧ h'.objects = h.objects ∧ Counts h' held := by
  induction is generalizing h with
  | nil => exact ⟨h, rfl, rfl, by rwa [Multiset.coe_nil, Multiset.zero_add] at hc⟩
  | cons i is ih =>
    rw [← Multiset.cons_coe, Multiset.cons_add] at hc
    obtain ⟨h₁, hdrop, hobjects, hc₁⟩ := hc.drop
    obtain ⟨h', hrest, hobjects', hc'⟩ := ih hc₁
    refine ⟨h', ?_, hobjects'.trans hobjects, hc'⟩
    rw [Heap.dropAll, hdrop, Except.ok_bind, hrest]

end RefCount
