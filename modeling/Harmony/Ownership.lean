import Mathlib.Data.List.Perm.Basic
import Mathlib.Logic.Function.Basic

/-!
# Who holds what

Things that are handed from place to place, such as descriptors or handles:
each is held in at most one place, at most once. `Ownership.Holds` says of the
lists that the places hold that they are those of one owner for each thing.
Taking a thing up, passing it on and giving it up are one kind of step, a move
from a place or from nowhere to a place or to nowhere
(`Ownership.Moves`), and every such step leaves each thing with one owner
(`Ownership.Holds.move`).
-/

namespace Ownership

variable {ι α : Type}

/-- **The places hold what they own**, each thing once. -/
structure Holds (held : ι → List α) (owner : α → Option ι) : Prop where
  nodup : ∀ p, (held p).Nodup
  mem_iff : ∀ p x, x ∈ held p ↔ owner x = some p

/-- **A thing goes from one place to another**; no place stands for outside.
All other places hold what they held. -/
structure Moves (held held' : ι → List α) (x : α) (before after : Option ι) :
    Prop where
  ne : before ≠ after
  left : ∀ p, before = some p → (held p).Perm (x :: held' p)
  entered : ∀ p, after = some p → (held' p).Perm (x :: held p)
  same : ∀ p, before ≠ some p → after ≠ some p → (held' p).Perm (held p)

/-- Nothing is held anywhere. -/
theorem holds_nil : Holds (fun _ : ι => ([] : List α)) fun _ => none :=
  ⟨fun _ => List.nodup_nil, fun _ _ => iff_of_false List.not_mem_nil nofun⟩

variable {held held' : ι → List α} {owner : α → Option ι}

/-- In two places there is never the same thing. -/
theorem Holds.eq_of_mem (h : Holds held owner) {p p' : ι} {x : α}
    (hp : x ∈ held p) (hp' : x ∈ held p') : p = p' :=
  Option.some.inj
    (((h.mem_iff p x).mp hp).symm.trans ((h.mem_iff p' x).mp hp'))

/-- **A move leaves each thing with one owner**, and the thing that moved with
its new one. -/
theorem Holds.move [DecidableEq α] (h : Holds held owner) {x : α} {before after : Option ι}
    (hx : owner x = before) (hm : Moves held held' x before after) :
    Holds held' (Function.update owner x after) := by
  have hother : ∀ p, before ≠ some p → x ∉ held p := fun p hp hmem =>
    hp (hx.symm.trans ((h.mem_iff p x).mp hmem))
  have hnodup : ∀ p, (held' p).Nodup ∧ (x ∈ held' p ↔ after = some p)
      ∧ ∀ y, y ≠ x → (y ∈ held' p ↔ y ∈ held p) := by
    intro p
    by_cases hb : before = some p
    · -- it has left this place
      have hperm := hm.left p hb
      have hnd := List.nodup_cons.mp (hperm.nodup_iff.mp (h.nodup p))
      have ha : after ≠ some p := fun ha => hm.ne (hb.trans ha.symm)
      refine ⟨hnd.2, iff_of_false hnd.1 ha, fun y hy => ?_⟩
      rw [hperm.mem_iff, List.mem_cons]
      exact (or_iff_right hy).symm
    · by_cases ha : after = some p
      · -- it has come to this place
        have hperm := hm.entered p ha
        refine ⟨hperm.nodup_iff.mpr
          (List.nodup_cons.mpr ⟨hother p hb, h.nodup p⟩),
          iff_of_true (hperm.mem_iff.mpr List.mem_cons_self) ha,
          fun y hy => ?_⟩
        rw [hperm.mem_iff, List.mem_cons]
        exact or_iff_right hy
      · have hperm := hm.same p hb ha
        exact ⟨hperm.nodup_iff.mpr (h.nodup p),
          iff_of_false (fun hmem => hother p hb (hperm.mem_iff.mp hmem)) ha,
          fun y _ => hperm.mem_iff⟩
  refine ⟨fun p => (hnodup p).1, fun p y => ?_⟩
  by_cases hy : y = x
  · rw [hy, Function.update_self]
    exact (hnodup p).2.1
  · rw [Function.update_of_ne hy, (hnodup p).2.2 y hy]
    exact h.mem_iff p y

/-- What has an owner is held somewhere. -/
theorem Holds.owner_isSome_iff (h : Holds held owner) (x : α) :
    (owner x).isSome = true ↔ ∃ p, x ∈ held p := by
  rw [Option.isSome_iff_exists]
  exact exists_congr fun p => (h.mem_iff p x).symm

end Ownership
