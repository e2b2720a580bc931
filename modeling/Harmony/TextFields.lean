import Mathlib.Data.List.TakeWhile
import Mathlib.Tactic.Common

/-!
# Lines and words

A text that is read line by line, each line word by word. `lines` is what
`getline` yields: the last line need not be ended, and where the text ends with
the end of a line no further line is begun. `words` are the longest pieces without
blanks.

Both are described by relations between a text and its pieces, which say how such a
text is written (`Lined`, `Spaced`), and the functions are the relations
(`lined_iff`, `spaced_iff`): whatever is written so is read back, and every text is
written so in one way.
-/

namespace TextFields

variable {α : Type}

/-! ## Lines -/

section Lines

variable {nl : α}

/-- A character in front of the first line. -/
def consLine (c : α) : List (List α) → List (List α)
  | [] => [[c]]
  | l :: ls => (c :: l) :: ls

/-- **The lines of a text.** -/
def lines [DecidableEq α] (nl : α) : List α → List (List α)
  | [] => []
  | c :: rest =>
    if c = nl then [] :: lines nl rest else consLine c (lines nl rest)

/-- **A text is written in lines**: each is ended, or is the last one and not
empty. -/
inductive Lined (nl : α) : List α → List (List α) → Prop
  | nil : Lined nl [] []
  | last {l : List α} (hl : nl ∉ l) (hne : l ≠ []) : Lined nl l [l]
  | line {l rest : List α} {ls : List (List α)} (hl : nl ∉ l)
      (h : Lined nl rest ls) : Lined nl (l ++ nl :: rest) (l :: ls)

/-- One more character in front of a text. -/
theorem Lined.cons {c : α} {rest : List α} {ls : List (List α)} (hc : c ≠ nl)
    (h : Lined nl rest ls) : Lined nl (c :: rest) (consLine c ls) := by
  have hcons : ∀ {l : List α}, nl ∉ l → nl ∉ c :: l := by
    intro l hl
    rw [List.mem_cons, not_or]
    exact ⟨Ne.symm hc, hl⟩
  cases h with
  | nil => exact .last (hcons List.not_mem_nil) (List.cons_ne_nil _ _)
  | last hl hne => exact .last (hcons hl) (List.cons_ne_nil _ _)
  | line hl h => exact .line (hcons hl) h

variable [DecidableEq α]

theorem lines_append {l : List α} (hl : nl ∉ l) (rest : List α) :
    lines nl (l ++ nl :: rest) = l :: lines nl rest := by
  induction l with
  | nil => rw [List.nil_append, lines, if_pos rfl]
  | cons c l ih =>
    rw [List.mem_cons, not_or] at hl
    rw [List.cons_append, lines, if_neg (Ne.symm hl.1), ih hl.2, consLine]

theorem lines_last {l : List α} (hl : nl ∉ l) (hne : l ≠ []) : lines nl l = [l] := by
  induction l with
  | nil => exact absurd rfl hne
  | cons c l ih =>
    rw [List.mem_cons, not_or] at hl
    rw [lines, if_neg (Ne.symm hl.1)]
    cases l with
    | nil => rfl
    | cons c' l => rw [ih hl.2 (List.cons_ne_nil _ _), consLine]

theorem lined_lines (text : List α) : Lined nl text (lines nl text) := by
  induction text with
  | nil => exact .nil
  | cons c rest ih =>
    rw [lines]
    split_ifs with hc
    · rw [hc]
      exact Lined.line List.not_mem_nil ih
    · exact ih.cons hc

/-- **The lines of a text** are those that it is written in. -/
theorem lined_iff {text : List α} {ls : List (List α)} :
    Lined nl text ls ↔ lines nl text = ls := by
  constructor
  · intro h
    induction h with
    | nil => rfl
    | last hl hne => exact lines_last hl hne
    | line hl _ ih => rw [lines_append hl, ih]
  · rintro rfl
    exact lined_lines text

end Lines

/-! ## Words -/

section Words

variable {blank : α → Bool} {s : List α}

/-- A word: something, and no blanks. -/
structure Word (blank : α → Bool) (w : List α) : Prop where
  ne_nil : w ≠ []
  plain : ∀ c ∈ w, blank c = false

/-- Nothing, or a blank: where a word ends. -/
def Ends (blank : α → Bool) (s : List α) : Prop :=
  ∀ c ∈ s.head?, blank c = true

/-- Where the blanks end, a word begins. -/
theorem blank_of_dropWhile {c : α} {rest : List α}
    (h : s.dropWhile blank = c :: rest) : blank c = false := by
  have hhead := List.head?_dropWhile_not blank s
  rwa [h] at hhead

theorem word_takeWhile {c : α} (hc : blank c = false) (rest : List α) :
    Word blank ((c :: rest).takeWhile fun c => !blank c) where
  ne_nil := by
    have hpos : (!blank c) = true := by
      rw [hc]
      rfl
    rw [List.takeWhile_cons_of_pos (p := fun c => !blank c) hpos]
    exact List.cons_ne_nil _ _
  plain d hd := by
    have hnot := List.mem_takeWhile_imp hd
    simpa using hnot

theorem ends_dropWhile (s : List α) :
    Ends blank (s.dropWhile fun c => !blank c) := by
  intro c hc
  have hhead := List.head?_dropWhile_not (fun c => !blank c) s
  rw [Option.mem_def.mp hc] at hhead
  simpa using hhead

/-- What is left behind a word is shorter. -/
theorem length_dropWhile_lt {c : α} {rest : List α}
    (h : s.dropWhile blank = c :: rest) :
    ((c :: rest).dropWhile fun c => !blank c).length < s.length := by
  have hle := (List.dropWhile_suffix (l := s) blank).length_le
  have hle' := (List.dropWhile_suffix (l := rest) fun c => !blank c).length_le
  rw [h, List.length_cons] at hle
  rw [List.dropWhile_cons_of_pos (by simp [blank_of_dropWhile h])]
  omega

/-- **The words of a line.** -/
def words (blank : α → Bool) (s : List α) : List (List α) :=
  match _h : s.dropWhile blank with
  | [] => []
  | c :: rest =>
    (c :: rest).takeWhile (fun c => !blank c)
      :: words blank ((c :: rest).dropWhile fun c => !blank c)
termination_by s.length
decreasing_by exact length_dropWhile_lt _h

/-- **A line is written in words**, with blanks between them. -/
inductive Spaced (blank : α → Bool) : List α → List (List α) → Prop
  | nil {pad : List α} (hpad : ∀ c ∈ pad, blank c = true) : Spaced blank pad []
  | word {pad w rest : List α} {ws : List (List α)}
      (hpad : ∀ c ∈ pad, blank c = true) (hw : Word blank w)
      (hrest : Ends blank rest) (h : Spaced blank rest ws) :
      Spaced blank (pad ++ (w ++ rest)) (w :: ws)

/-- Blanks in front of a line are skipped. -/
theorem dropWhile_pad {pad : List α} (hpad : ∀ c ∈ pad, blank c = true)
    (s : List α) : (pad ++ s).dropWhile blank = s.dropWhile blank := by
  rw [List.dropWhile_append_of_pos hpad]

/-- A word is what is in front of its end. -/
theorem Word.takeWhile_append {w rest : List α} (hw : Word blank w)
    (hrest : Ends blank rest) :
    (w ++ rest).takeWhile (fun c => !blank c) = w
      ∧ (w ++ rest).dropWhile (fun c => !blank c) = rest := by
  have hplain : ∀ c ∈ w, (!blank c) = true := fun c hc => by
    rw [hw.plain c hc]
    rfl
  rw [List.takeWhile_append_of_pos hplain, List.dropWhile_append_of_pos hplain]
  cases rest with
  | nil => exact ⟨List.append_nil w, rfl⟩
  | cons c rest =>
    have hc : ¬(!blank c) = true := by
      rw [hrest c rfl]
      decide
    rw [List.takeWhile_cons_of_neg (p := fun c => !blank c) hc,
      List.dropWhile_cons_of_neg (p := fun c => !blank c) hc]
    exact ⟨List.append_nil w, rfl⟩

theorem words_pad {pad : List α} (hpad : ∀ c ∈ pad, blank c = true) :
    words blank pad = [] := by
  rw [words]
  split
  next => rfl
  next h =>
    rw [← List.append_nil pad, dropWhile_pad hpad] at h
    cases h

theorem words_word {pad w rest : List α} (hpad : ∀ c ∈ pad, blank c = true)
    (hw : Word blank w) (hrest : Ends blank rest) :
    words blank (pad ++ (w ++ rest)) = w :: words blank rest := by
  obtain ⟨c, w', rfl⟩ := List.exists_cons_of_ne_nil hw.ne_nil
  have hdrop : (pad ++ ((c :: w') ++ rest)).dropWhile blank = (c :: w') ++ rest := by
    rw [dropWhile_pad hpad, List.cons_append, List.dropWhile_cons_of_neg
      (by rw [hw.plain c List.mem_cons_self]; decide)]
  obtain ⟨htake, hrest'⟩ := hw.takeWhile_append hrest
  rw [words]
  split
  next h => cases hdrop.symm.trans h
  next h =>
    rw [← h, hdrop, htake, hrest']

theorem spaced_words (s : List α) : Spaced blank s (words blank s) := by
  induction hn : s.length using Nat.strong_induction_on generalizing s with
  | h n ih =>
    have hpad : ∀ c ∈ s.takeWhile blank, blank c = true := fun c hc =>
      List.mem_takeWhile_imp hc
    rw [words]
    split
    next h =>
      rw [← List.takeWhile_append_dropWhile (p := blank) (l := s), h, List.append_nil]
      exact .nil hpad
    next c rest h =>
      have hlt := length_dropWhile_lt h
      have hsplit : s = s.takeWhile blank ++ ((c :: rest).takeWhile (fun c => !blank c)
          ++ (c :: rest).dropWhile fun c => !blank c) := by
        rw [List.takeWhile_append_dropWhile, ← h, List.takeWhile_append_dropWhile]
      have hspaced := Spaced.word hpad (word_takeWhile (blank_of_dropWhile h) rest)
        (ends_dropWhile _) (ih _ (hn ▸ hlt) _ rfl)
      rwa [← hsplit] at hspaced

/-- **The words of a line** are those that it is written in. -/
theorem spaced_iff {ws : List (List α)} :
    Spaced blank s ws ↔ words blank s = ws := by
  constructor
  · intro h
    induction h with
    | nil hpad => exact words_pad hpad
    | word hpad hw hrest _ ih => rw [words_word hpad hw hrest, ih]
  · rintro rfl
    exact spaced_words s

end Words

end TextFields
