import Mathlib.Data.List.Induction
import Mathlib.Data.Nat.Basic

/-!
# Dealing in turn

What is dealt out to `n` receivers in turn: the `i`-th of them gets those of
the list whose positions are `i` modulo `n` (`dealt`), of which the `j`-th is
the one at the position `i + j * n` (`getElem?_dealt`).
-/

/-- **Those of a list whose positions are `i` modulo `n`.** -/
def dealt {α : Type} (n i : ℕ) (l : List α) : List α :=
  (l.zipIdx.filter fun p => p.2 % n = i).map Prod.fst

variable {α : Type}

theorem dealt_nil (n i : ℕ) : dealt n i ([] : List α) = [] := rfl

/-- One more is dealt out. -/
theorem dealt_append_singleton (n i : ℕ) (l : List α) (x : α) :
    dealt n i (l ++ [x])
      = dealt n i l ++ if l.length % n = i then [x] else [] := by
  unfold dealt
  rw [List.zipIdx_append, List.filter_append, List.map_append, Nat.zero_add,
    List.zipIdx_singleton]
  by_cases h : l.length % n = i
  · rw [if_pos h, List.filter_cons_of_pos (by simpa using h)]
    rfl
  · rw [if_neg h, List.filter_cons_of_neg (by simpa using h)]
    rfl

/-- How many that are. -/
theorem length_dealt {n i : ℕ} (hi : i < n) (l : List α) :
    (dealt n i l).length = (l.length + (n - 1 - i)) / n := by
  induction l using List.reverseRecOn with
  | nil =>
    rw [dealt_nil, List.length_nil, Nat.zero_add, Nat.div_eq_of_lt (by omega)]
  | append_singleton l x ih =>
    have hdvd : n ∣ l.length + (n - 1 - i) + 1 ↔ l.length % n = i := by
      rw [show l.length + (n - 1 - i) + 1 = l.length + (n - i) by omega]
      constructor
      · rintro ⟨c, hc⟩
        have hc0 : c ≠ 0 := by
          rintro rfl
          omega
        obtain ⟨d, rfl⟩ := Nat.exists_eq_succ_of_ne_zero hc0
        have hlength : l.length = i + n * d := by
          rw [Nat.mul_succ] at hc
          omega
        rw [hlength, Nat.add_mul_mod_self_left, Nat.mod_eq_of_lt hi]
      · intro hmod
        refine ⟨l.length / n + 1, ?_⟩
        have hdiv := Nat.div_add_mod l.length n
        rw [Nat.mul_succ]
        omega
    rw [dealt_append_singleton, List.length_append, ih, List.length_append,
      List.length_singleton,
      show l.length + 1 + (n - 1 - i) = l.length + (n - 1 - i) + 1 by omega,
      Nat.succ_div]
    by_cases h : l.length % n = i
    · rw [if_pos h, if_pos (hdvd.mpr h), List.length_singleton]
    · rw [if_neg h, if_neg fun hd => h (hdvd.mp hd), List.length_nil]

theorem lt_length_dealt {n i : ℕ} (hi : i < n) (l : List α) (j : ℕ) :
    j < (dealt n i l).length ↔ i + j * n < l.length := by
  rw [length_dealt hi, Nat.lt_div_iff_mul_lt (Nat.zero_lt_of_lt hi)]
  omega

/-- **Which that are.** -/
theorem getElem?_dealt {n i : ℕ} (hi : i < n) (l : List α) (j : ℕ) :
    (dealt n i l)[j]? = l[i + j * n]? := by
  induction l using List.reverseRecOn with
  | nil => rw [dealt_nil, List.getElem?_nil, List.getElem?_nil]
  | append_singleton l x ih =>
    have hbefore := lt_length_dealt hi l j
    have hbehind := lt_length_dealt hi (l ++ [x]) j
    have hlength : (l ++ [x]).length = l.length + 1 := List.length_append
    rcases Nat.lt_trichotomy (i + j * n) l.length with hj | hj | hj
    · rw [dealt_append_singleton, List.getElem?_append_left (hbefore.mpr hj), ih,
        List.getElem?_append_left hj]
    · -- the one that was added
      rw [hj, List.getElem?_concat_length]
      rw [dealt_append_singleton] at hbehind ⊢
      split_ifs at hbehind ⊢ with hmod
      · have hlast : j = (dealt n i l).length := by
          rw [List.length_append, List.length_singleton] at hbehind
          omega
        rw [hlast, List.getElem?_concat_length]
      · rw [List.append_nil] at hbehind
        omega
    · rw [List.getElem?_eq_none (by omega), List.getElem?_eq_none (by omega)]
