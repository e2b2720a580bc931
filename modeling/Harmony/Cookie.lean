import Harmony.RequestHeaders
import Mathlib.Data.List.TakeWhile

/-!
# Cookies

A client sends its cookies in header fields of the form

    n1=v1; n2=v2; n3=v3

and `util::get_cookie` looks one of them up. Each turn of its loop (`turn`)
finds where the name begins, where the first `=` stands and where the first `;`
behind that, cuts out the name and the value, and goes on behind the `;`.

`substr` takes a count, though, and what it is given is a position. For the name
that is the same as long as the name begins where the text does, that is, in the
first pair only; the others begin with a blank. For the value it is not: the
value is cut too far behind, unless it is the last one (`findsCookie_iff`).

Where nothing is left but blanks, no name begins, and `substr` throws. A field
that ends with a `;` leads there, as does an empty one (`returns_iff`).
-/

open StringView

namespace Cookie

/-! ## Finding -/

/-- `find_first_of` and the like: the first position from `pos` on where a byte
is of a kind, or `npos`. -/
def find (p : UInt8 → Bool) (s : Bytes) (pos : ℕ) : Option ℕ :=
  ((s.drop pos).findIdx? p).map (pos + ·)

/-- The position behind, where the one behind `npos` is zero. -/
def behind : Option ℕ → ℕ
  | some pos => pos + 1
  | none => 0

/-- `substr`, where the start may be `npos`, which is behind the end of every
text, and so may the count, which takes all there is. -/
def cut (s : Bytes) (pos n : Option ℕ) : Except Fault Bytes :=
  match pos with
  | none => .error .outOfRange
  | some pos => substr s pos (n.getD s.length)

/-- A blank. -/
def isBlank (c : UInt8) : Bool := c == 32

/-- `=`. -/
def isEquals (c : UInt8) : Bool := c == 61

/-- `;`. -/
def isSemicolon (c : UInt8) : Bool := c == 59

/-! ## The lookup -/

/-- **How a turn ends.** -/
inductive Turn where
  /-- The function returns. -/
  | done (v : Option Bytes)
  /-- The loop goes on with the rest. -/
  | next (cookies : Bytes)
  deriving DecidableEq, Repr

/-- **A turn of the loop of `util::get_cookie`.** -/
def turn (cookies key : Bytes) : Except Fault Turn := do
  let kbeg := find (fun c => !isBlank c) cookies 0
  let kend := find isEquals cookies 0
  let k ← cut cookies kbeg kend
  let vbeg := behind kend
  let vend := find isSemicolon cookies vbeg
  let v ← cut cookies (some vbeg) vend
  if streqL k key then .ok (.done (some v))
  else
    match vend with
    | none => .ok (.done none)
    | some vend => do
      let cookies ← cut cookies (some (vend + 1)) none
      .ok (.next cookies)

/-- What is found lies inside the text. -/
theorem lt_of_find {p : UInt8 → Bool} {s : Bytes} {pos i : ℕ}
    (h : find p s pos = some i) : i < s.length := by
  unfold find at h
  obtain ⟨k, hk, rfl⟩ := Option.map_eq_some_iff.mp h
  have hlt := (List.findIdx?_eq_some_iff_findIdx_eq.mp hk).1
  rw [List.length_drop] at hlt
  omega

/-! ## What a turn cuts out -/

/-- Whether a text is made of blanks. -/
def Blank (s : Bytes) : Prop := s.dropWhile isBlank = []

instance (s : Bytes) : Decidable (Blank s) :=
  inferInstanceAs (Decidable (_ = _))

theorem blank_iff {s : Bytes} : Blank s ↔ ∀ c ∈ s, c = 32 := by
  unfold Blank
  rw [List.dropWhile_eq_nil_iff]
  simp only [isBlank, beq_iff_eq]

/-- Where a turn takes the name to end. -/
def nameEnd (s : Bytes) : Option ℕ := find isEquals s 0

/-- Where a turn takes the value to end. -/
def valueEnd (s : Bytes) : Option ℕ := find isSemicolon s (behind (nameEnd s))

/-- The name that a turn reads. -/
def nameOf (s : Bytes) : Bytes :=
  (s.dropWhile isBlank).take ((nameEnd s).getD s.length)

/-- The value that a turn reads. -/
def valueOf (s : Bytes) : Bytes :=
  (s.drop (behind (nameEnd s))).take ((valueEnd s).getD s.length)

/-- What a turn leaves to the next one. -/
def restOf (s : Bytes) : Option Bytes :=
  (valueEnd s).map fun vend => s.drop (vend + 1)

theorem find_zero (p : UInt8 → Bool) (s : Bytes) :
    find p s 0 = s.findIdx? p := by
  unfold find
  rw [List.drop_zero]
  simp only [Nat.zero_add, Option.map_id']

/-- The first byte of a kind is found. -/
theorem find_append {p : UInt8 → Bool} {a : Bytes} {c : UInt8}
    (ha : ∀ x ∈ a, p x = false) (hc : p c = true) (b : Bytes) :
    find p (a ++ c :: b) 0 = some a.length := by
  rw [find_zero, List.findIdx?_append, List.findIdx?_eq_none_iff.mpr ha,
    List.findIdx?_cons, hc]
  simp

/-- Where there is none, nothing is found. -/
theorem find_of_forall {p : UInt8 → Bool} {s : Bytes}
    (h : ∀ x ∈ s, p x = false) : find p s 0 = none := by
  rw [find_zero]
  exact List.findIdx?_eq_none_iff.mpr h

/-- The search from a position on is one in what stands there. -/
theorem find_length (p : UInt8 → Bool) (front y : Bytes) :
    find p (front ++ y) front.length = (find p y 0).map (front.length + ·) := by
  rw [find_zero, find, List.drop_left]

theorem isEquals_eq_false {s : Bytes} (h : 61 ∉ s) :
    ∀ c ∈ s, isEquals c = false :=
  fun _ hc => beq_eq_false_iff_ne.mpr fun heq => h (heq ▸ hc)

theorem isSemicolon_eq_false {s : Bytes} (h : 59 ∉ s) :
    ∀ c ∈ s, isSemicolon c = false :=
  fun _ hc => beq_eq_false_iff_ne.mpr fun heq => h (heq ▸ hc)

/-- With an `=`, the name ends there. -/
theorem nameEnd_append {x : Bytes} (hx : 61 ∉ x) (y : Bytes) :
    nameEnd (x ++ 61 :: y) = some x.length :=
  find_append (isEquals_eq_false hx) rfl y

/-- Without one, the name ends with the text. -/
theorem nameEnd_of_not_mem {s : Bytes} (h : 61 ∉ s) : nameEnd s = none :=
  find_of_forall (isEquals_eq_false h)

/-- **Where a turn takes the value to begin**: behind the first `=`, or at the
beginning of the text. -/
structure BeginsBehind (s front y : Bytes) : Prop where
  split : s = front ++ y
  pos : behind (nameEnd s) = front.length

theorem beginsBehind_equals {x : Bytes} (hx : 61 ∉ x) (y : Bytes) :
    BeginsBehind (x ++ 61 :: y) (x ++ [61]) y := by
  refine ⟨(List.append_cons x 61 y), ?_⟩
  rw [nameEnd_append hx, List.length_append]
  rfl

theorem beginsBehind_nil {s : Bytes} (h : 61 ∉ s) : BeginsBehind s [] s := by
  refine ⟨rfl, ?_⟩
  rw [nameEnd_of_not_mem h]
  rfl

namespace BeginsBehind

variable {s front y v r : Bytes}

/-- The last value is all that is left. -/
theorem last (h : BeginsBehind s front y) (hy : 59 ∉ y) :
    restOf s = none ∧ valueOf s = y := by
  have hend : valueEnd s = none := by
    unfold valueEnd
    rw [h.pos, h.split, find_length, find_of_forall (isSemicolon_eq_false hy)]
    rfl
  unfold restOf valueOf
  rw [hend, h.pos, h.split, List.drop_left]
  refine ⟨rfl, List.take_of_length_le ?_⟩
  rw [List.length_append]
  exact Nat.le_add_left _ _

/-- **Any other value** is taken to be as long as it would be from the
beginning of the text. -/
theorem more (h : BeginsBehind s front (v ++ 59 :: r)) (hv : 59 ∉ v) :
    restOf s = some r
      ∧ valueOf s = (v ++ 59 :: r).take (front.length + v.length) := by
  have hend : valueEnd s = some (front.length + v.length) := by
    unfold valueEnd
    rw [h.pos, h.split, find_length, find_append (isSemicolon_eq_false hv) rfl]
    rfl
  have hsplit : front ++ (v ++ 59 :: r) = (front ++ v ++ [59]) ++ r := by
    rw [List.append_assoc, List.append_assoc]
    rfl
  have hlength : front.length + v.length + 1 = (front ++ v ++ [59]).length := by
    rw [List.length_append, List.length_append]
    rfl
  unfold restOf valueOf
  rw [hend, h.pos, h.split, List.drop_left, Option.map_some, hlength, hsplit,
    List.drop_left]
  exact ⟨rfl, rfl⟩

/-- **Any other value is cut too far behind**, if there is a name. -/
theorem semicolon_mem_valueOf (h : BeginsBehind s front (v ++ 59 :: r))
    (hv : 59 ∉ v) (hfront : front ≠ []) : 59 ∈ valueOf s := by
  obtain ⟨c, front', rfl⟩ := List.exists_cons_of_ne_nil hfront
  rw [(h.more hv).2, Nat.add_comm, List.take_length_add_append, List.length_cons,
    List.take_succ_cons]
  exact List.mem_append_right _ List.mem_cons_self

end BeginsBehind

/-- The value begins somewhere. -/
theorem exists_beginsBehind (s : Bytes) :
    (61 ∉ s ∧ BeginsBehind s [] s)
      ∨ ∃ x y, s = x ++ 61 :: y ∧ 61 ∉ x ∧ BeginsBehind s (x ++ [61]) y := by
  by_cases h : 61 ∈ s
  · obtain ⟨x, y, hs, hx⟩ := List.eq_append_cons_of_mem h
    subst hs
    exact Or.inr ⟨x, y, rfl, hx, beginsBehind_equals hx y⟩
  · exact Or.inl ⟨h, beginsBehind_nil h⟩

/-- Blanks are no `=`. -/
theorem equals_notMem_blanks (k : ℕ) {name : Bytes} (h : 61 ∉ name) :
    61 ∉ List.replicate k 32 ++ name := by
  rw [List.mem_append, not_or]
  exact ⟨fun hk => absurd (List.eq_of_mem_replicate hk) (by decide), h⟩

/-- **A name behind `k` blanks** is read from where it begins on, as far as it
would reach from the beginning of the text. -/
theorem nameOf_replicate (k : ℕ) {name : Bytes} (hname : 61 ∉ name)
    (hhead : name.head? ≠ some 32) (y : Bytes) :
    nameOf (List.replicate k 32 ++ (name ++ 61 :: y))
      = (name ++ 61 :: y).take (name.length + k) := by
  have hend : nameEnd (List.replicate k 32 ++ (name ++ 61 :: y))
      = some (k + name.length) := by
    rw [← List.append_assoc, nameEnd_append (equals_notMem_blanks k hname),
      List.length_append, List.length_replicate]
  have hdrop : (List.replicate k 32 ++ (name ++ 61 :: y)).dropWhile isBlank
      = name ++ 61 :: y := by
    rw [List.dropWhile_append_of_pos fun c hc => by
      rw [List.eq_of_mem_replicate hc]
      rfl]
    cases name with
    | nil => exact List.dropWhile_cons_of_neg (by decide)
    | cons c name =>
      refine List.dropWhile_cons_of_neg fun hc => hhead ?_
      rw [List.head?_cons, eq_of_beq hc]
  unfold nameOf
  rw [hend, hdrop, Nat.add_comm]
  rfl

/-- In a text of blanks no name begins. -/
theorem find_of_blank {s : Bytes} (h : Blank s) :
    find (fun c => !isBlank c) s 0 = none := by
  rw [find_zero, List.findIdx?_eq_none_iff]
  intro c hc
  rw [blank_iff.mp h c hc]
  rfl

/-- In any other, it begins behind the blanks. -/
theorem find_of_not_blank {s : Bytes} (h : ¬ Blank s) :
    ∃ kbeg, find (fun c => !isBlank c) s 0 = some kbeg ∧ kbeg < s.length
      ∧ s.drop kbeg = s.dropWhile isBlank := by
  cases hfind : find (fun c => !isBlank c) s 0 with
  | none =>
    refine absurd (blank_iff.mpr fun c hc => ?_) h
    rw [find_zero, List.findIdx?_eq_none_iff] at hfind
    simpa [isBlank] using hfind c hc
  | some kbeg =>
    refine ⟨kbeg, rfl, lt_of_find hfind, ?_⟩
    rw [find_zero, List.findIdx?_eq_some_iff_findIdx_eq] at hfind
    rw [List.dropWhile_eq_drop_findIdx_not, hfind.2]

/-- **Where only blanks are left, a turn throws.** -/
theorem turn_of_blank {s : Bytes} (key : Bytes) (h : Blank s) :
    turn s key = .error .outOfRange := by
  unfold turn
  rw [find_of_blank h]
  rfl

/-- **Any other turn** compares the name, and returns the value or goes on with
the rest. -/
theorem turn_of_not_blank {s : Bytes} (key : Bytes) (h : ¬ Blank s) :
    turn s key = .ok (if streqL (nameOf s) key then .done (some (valueOf s))
      else match restOf s with
        | none => .done none
        | some rest => .next rest) := by
  obtain ⟨kbeg, hkbeg, hlt, hdrop⟩ := find_of_not_blank h
  have hvbeg : behind (nameEnd s) ≤ s.length := by
    cases hend : nameEnd s with
    | none => exact Nat.zero_le _
    | some kend => exact lt_of_find hend
  have hk : cut s (some kbeg) (nameEnd s) = .ok (nameOf s) := by
    unfold cut nameOf
    dsimp only
    rw [substr_of_le _ hlt.le, hdrop]
  have hv : cut s (some (behind (nameEnd s))) (valueEnd s) = .ok (valueOf s) :=
    substr_of_le _ hvbeg
  unfold turn
  rw [hkbeg]
  show (cut s (some kbeg) (nameEnd s) >>= fun k =>
    cut s (some (behind (nameEnd s))) (valueEnd s) >>= _) = _
  rw [hk, Except.ok_bind, hv, Except.ok_bind]
  unfold restOf
  show (if _ then _ else match valueEnd s with | none => _ | some vend => _) = _
  cases hend : valueEnd s with
  | none => split_ifs <;> rfl
  | some vend =>
    have hrest : cut s (some (vend + 1)) none = .ok (s.drop (vend + 1)) := by
      refine (substr_of_le _ (lt_of_find hend)).trans ?_
      rw [List.take_of_length_le]
      rw [List.length_drop]
      exact Nat.sub_le _ _
    dsimp only
    rw [hrest]
    split_ifs <;> rfl

/-- What a turn leaves stands behind a `;`. -/
theorem exists_of_restOf {s rest : Bytes} (h : restOf s = some rest) :
    ∃ front, s = front ++ 59 :: rest := by
  unfold restOf at h
  obtain ⟨vend, hend, rfl⟩ := Option.map_eq_some_iff.mp h
  have hlt := lt_of_find hend
  have hsemicolon : s[vend] = 59 := by
    unfold valueEnd find at hend
    obtain ⟨k, hk, rfl⟩ := Option.map_eq_some_iff.mp hend
    have hat := (List.findIdx?_eq_some_iff_getElem.mp hk).2.1
    rw [List.getElem_drop] at hat
    exact eq_of_beq hat
  refine ⟨s.take vend, ?_⟩
  rw [← hsemicolon, ← List.drop_eq_getElem_cons hlt, List.take_append_drop]

/-- A turn that goes on does so with a shorter text. -/
theorem length_lt_of_turn {s key rest : Bytes}
    (h : turn s key = .ok (.next rest)) : rest.length < s.length := by
  by_cases hblank : Blank s
  · rw [turn_of_blank key hblank] at h
    cases h
  · rw [turn_of_not_blank key hblank] at h
    split_ifs at h
    · cases h
    · cases hrest : restOf s with
      | none =>
        rw [hrest] at h
        cases h
      | some rest' =>
        rw [hrest] at h
        cases h
        obtain ⟨front, hs⟩ := exists_of_restOf hrest
        rw [hs, List.length_append, List.length_cons]
        omega

/-! ## The loop -/

/-- **`util::get_cookie`.** -/
def getCookie (cookies key : Bytes) : Except Fault (Option Bytes) :=
  match h : turn cookies key with
  | .error f => .error f
  | .ok (.done v) => .ok v
  | .ok (.next rest) =>
    have := length_lt_of_turn h
    getCookie rest key
termination_by cookies.length

/-- The function does a turn, and then perhaps more. -/
theorem getCookie_eq (s key : Bytes) :
    getCookie s key = (do
      match ← turn s key with
      | .done v => .ok v
      | .next rest => getCookie rest key) := by
  rw [getCookie]
  split
  · rename_i f hturn
    rw [hturn, Except.error_bind]
  · rename_i v hturn
    rw [hturn, Except.ok_bind]
  · rename_i rest hturn
    dsimp only
    rw [hturn, Except.ok_bind]

theorem getCookie_of_blank {s : Bytes} (key : Bytes) (h : Blank s) :
    getCookie s key = .error .outOfRange := by
  rw [getCookie_eq, turn_of_blank key h, Except.error_bind]

theorem getCookie_of_answer {s key : Bytes} (h : ¬ Blank s)
    (hname : streqL (nameOf s) key = true) :
    getCookie s key = .ok (some (valueOf s)) := by
  rw [getCookie_eq, turn_of_not_blank key h, Except.ok_bind, if_pos hname]

theorem getCookie_of_last {s key : Bytes} (h : ¬ Blank s)
    (hname : streqL (nameOf s) key ≠ true) (hrest : restOf s = none) :
    getCookie s key = .ok none := by
  rw [getCookie_eq, turn_of_not_blank key h, Except.ok_bind, if_neg hname, hrest]

theorem getCookie_of_more {s key rest : Bytes} (h : ¬ Blank s)
    (hname : streqL (nameOf s) key ≠ true) (hrest : restOf s = some rest) :
    getCookie s key = getCookie rest key := by
  rw [getCookie_eq, turn_of_not_blank key h, Except.ok_bind, if_neg hname, hrest]

/-! ## The texts of the turns -/

/-- A rest is shorter. -/
theorem length_lt_of_restOf {s rest : Bytes} (h : restOf s = some rest) :
    rest.length < s.length := by
  obtain ⟨front, hs⟩ := exists_of_restOf h
  rw [hs, List.length_append, List.length_cons]
  omega

/-- **The texts that the turns look at**, as long as there is something other
than blanks. -/
def turns (s : Bytes) : List Bytes :=
  if Blank s then []
  else
    s :: match h : restOf s with
      | none => []
      | some rest =>
        have := length_lt_of_restOf h
        turns rest
termination_by s.length

theorem turns_of_blank {s : Bytes} (h : Blank s) : turns s = [] := by
  rw [turns, if_pos h]

theorem turns_of_last {s : Bytes} (h : ¬ Blank s) (hrest : restOf s = none) :
    turns s = [s] := by
  rw [turns, if_neg h]
  split
  · rfl
  · rename_i rest hsome
    rw [hrest] at hsome
    cases hsome

theorem turns_of_more {s rest : Bytes} (h : ¬ Blank s)
    (hrest : restOf s = some rest) : turns s = s :: turns rest := by
  rw [turns, if_neg h]
  split
  · rename_i hnone
    rw [hrest] at hnone
    cases hnone
  · rename_i rest' hsome
    rw [hrest] at hsome
    cases hsome
    rfl

/-- What stands behind the last `;`, or all of a text. -/
def lastPiece (s : Bytes) : Bytes :=
  (s.reverse.takeWhile fun c => !isSemicolon c).reverse

/-- Whether a turn answers to the key. -/
def answers (key s : Bytes) : Bool := streqL (nameOf s) key

theorem lastPiece_of_not_mem {s : Bytes} (h : 59 ∉ s) : lastPiece s = s := by
  unfold lastPiece
  rw [List.takeWhile_eq_self_iff.mpr, List.reverse_reverse]
  intro c hc
  rw [isSemicolon_eq_false h c (List.mem_reverse.mp hc)]
  rfl

theorem lastPiece_append (front rest : Bytes) :
    lastPiece (front ++ 59 :: rest) = lastPiece rest := by
  unfold lastPiece
  rw [List.reverse_append, List.reverse_cons, List.append_assoc,
    List.takeWhile_append]
  split_ifs with hlength
  · rw [List.singleton_append, List.takeWhile_cons_of_neg (by decide),
      List.append_nil]
    exact congrArg List.reverse
      ((List.takeWhile_prefix _).eq_of_length hlength).symm
  · rfl

/-- What stands behind the last `;` ends the text. -/
theorem suffix_lastPiece (front : Bytes) {y : Bytes} (h : 59 ∉ y) :
    y <:+ lastPiece (front ++ y) := by
  unfold lastPiece
  rw [List.reverse_append, List.takeWhile_append_of_pos, List.reverse_append,
    List.reverse_reverse]
  · exact List.suffix_append _ _
  · intro c hc
    rw [isSemicolon_eq_false h c (List.mem_reverse.mp hc)]
    rfl

/-- **The last turn looks at more than blanks** behind the last `;`. -/
theorem not_blank_lastPiece {s : Bytes} (h : ¬ Blank s)
    (hrest : restOf s = none) : ¬ Blank (lastPiece s) := by
  have hlast : ∀ front y, BeginsBehind s front y → 59 ∉ y := by
    intro front y hbegins hmem
    obtain ⟨v, r, hy, hv⟩ := List.eq_append_cons_of_mem hmem
    subst hy
    rw [(hbegins.more hv).1] at hrest
    cases hrest
  rcases exists_beginsBehind s with ⟨-, hbegins⟩ | ⟨x, y, hs, -, hbegins⟩
  · rw [lastPiece_of_not_mem (hlast _ _ hbegins)]
    exact h
  · -- there is an `=`
    have hnot : 59 ∉ 61 :: y := by
      rw [List.mem_cons, not_or]
      exact ⟨by decide, hlast _ _ hbegins⟩
    intro hblank
    have hmem : 61 ∈ lastPiece s :=
      hs ▸ (suffix_lastPiece x hnot).mem List.mem_cons_self
    exact absurd (blank_iff.mp hblank 61 hmem) (by decide)

/-- **How the lookup ends**: with the first turn that answers to the key. If none
does, it throws where only blanks stand behind the last `;`. -/
theorem getCookie_eq_find (s key : Bytes) :
    getCookie s key
      = match (turns s).find? (answers key) with
        | some t => .ok (some (valueOf t))
        | none => if Blank (lastPiece s) then .error .outOfRange else .ok none := by
  induction hn : s.length using Nat.strong_induction_on generalizing s with
  | _ n ih =>
    by_cases hblank : Blank s
    · have hsemicolon : 59 ∉ s := fun hmem =>
        absurd (blank_iff.mp hblank 59 hmem) (by decide)
      rw [getCookie_of_blank key hblank, turns_of_blank hblank,
        lastPiece_of_not_mem hsemicolon, List.find?_nil]
      exact (if_pos hblank).symm
    by_cases hname : answers key s = true
    · rw [getCookie_of_answer hblank hname]
      cases hrest : restOf s with
      | none => rw [turns_of_last hblank hrest, List.find?_cons_of_pos hname]
      | some rest => rw [turns_of_more hblank hrest, List.find?_cons_of_pos hname]
    · cases hrest : restOf s with
      | none =>
        rw [getCookie_of_last hblank hname hrest, turns_of_last hblank hrest,
          List.find?_cons_of_neg hname, List.find?_nil]
        exact (if_neg (not_blank_lastPiece hblank hrest)).symm
      | some rest =>
        obtain ⟨front, hs⟩ := exists_of_restOf hrest
        have hlast : lastPiece s = lastPiece rest := by
          rw [hs, lastPiece_append]
        rw [getCookie_of_more hblank hname hrest, turns_of_more hblank hrest,
          List.find?_cons_of_neg hname, hlast]
        exact ih rest.length (hn ▸ length_lt_of_restOf hrest) rest rfl

/-! ## What does not throw -/

/-- **The lookup returns exactly if** something other than blanks stands behind
the last `;` of the field, or a turn on the way there answers to the key. -/
theorem returns_iff (s key : Bytes) :
    (∃ v, getCookie s key = .ok v)
      ↔ ¬ Blank (lastPiece s) ∨ ∃ t ∈ turns s, answers key t = true := by
  rw [getCookie_eq_find]
  cases hfind : (turns s).find? (answers key) with
  | some t =>
    exact iff_of_true ⟨_, rfl⟩
      (Or.inr ⟨t, List.mem_of_find?_eq_some hfind, List.find?_some hfind⟩)
  | none =>
    rw [List.find?_eq_none] at hfind
    rw [or_iff_left fun ⟨t, ht, hanswers⟩ => hfind t ht hanswers]
    dsimp only
    split_ifs with hblank
    · refine iff_of_false ?_ fun h => h hblank
      rintro ⟨v, hv⟩
      cases hv
    · exact iff_of_true ⟨_, rfl⟩ hblank

/-- **An empty field makes the lookup throw.** -/
theorem emptyField_not_returns :
    ¬ ∀ s key : Bytes, ∃ v, getCookie s key = .ok v := by
  intro h
  obtain ⟨v, hv⟩ := h [] (bytes "id")
  rw [getCookie_of_blank (bytes "id") (by decide)] at hv
  cases hv

/-! ## The cookies of a client -/

/-- **A cookie** as clients send them. -/
structure Pair where
  name : Bytes
  value : Bytes
  name_ne_nil : name ≠ []
  equals_notMem_name : 61 ∉ name
  semicolon_notMem_name : 59 ∉ name
  blank_notMem_name : 32 ∉ name
  semicolon_notMem_value : 59 ∉ value
  value_head : value.head? ≠ some 32

/-- A cookie in its field. -/
def Pair.text (p : Pair) : Bytes := p.name ++ 61 :: p.value

/-- **The field of the cookies.** -/
def serialise : List Pair → Bytes
  | [] => []
  | [p] => p.text
  | p :: q :: ps => p.text ++ (bytes "; " ++ serialise (q :: ps))

/-- What stands behind the value of a cookie. -/
def tailText : List Pair → Bytes
  | [] => []
  | p :: ps => 59 :: 32 :: serialise (p :: ps)

/-- The first cookie, and the others. -/
theorem serialise_cons (p : Pair) (ps : List Pair) :
    serialise (p :: ps) = p.name ++ 61 :: (p.value ++ tailText ps) := by
  cases ps with
  | nil =>
    rw [tailText, List.append_nil]
    rfl
  | cons q ps =>
    show p.name ++ 61 :: p.value ++ (59 :: 32 :: serialise (q :: ps)) = _
    rw [List.append_assoc]
    rfl

/-- A cookie behind `k` blanks, and the cookies that follow. -/
def textFrom (k : ℕ) (p : Pair) (ps : List Pair) : Bytes :=
  List.replicate k 32 ++ (p.name ++ 61 :: (p.value ++ tailText ps))

section TextFrom

variable (k : ℕ) (p : Pair) (ps : List Pair)

theorem textFrom_eq :
    textFrom k p ps
      = (List.replicate k 32 ++ p.name) ++ 61 :: (p.value ++ tailText ps) :=
  (List.append_assoc _ _ _).symm

theorem not_blank_textFrom : ¬ Blank (textFrom k p ps) := by
  intro h
  have hmem : 61 ∈ textFrom k p ps :=
    textFrom_eq k p ps ▸ List.mem_append_right _ List.mem_cons_self
  exact absurd (blank_iff.mp h 61 hmem) (by decide)

/-- The value begins behind the blanks, the name and the `=`. -/
theorem beginsBehind_textFrom :
    BeginsBehind (textFrom k p ps) ((List.replicate k 32 ++ p.name) ++ [61])
      (p.value ++ tailText ps) :=
  textFrom_eq k p ps ▸
    beginsBehind_equals (equals_notMem_blanks k p.equals_notMem_name) _

/-- **The name of a cookie** is read from where it begins on, as far as it would
reach from the beginning of the text. -/
theorem nameOf_textFrom :
    nameOf (textFrom k p ps)
      = (p.name ++ 61 :: (p.value ++ tailText ps)).take (p.name.length + k) := by
  refine nameOf_replicate k p.equals_notMem_name (fun h => ?_) _
  exact p.blank_notMem_name (List.mem_of_head? h)

end TextFrom

/-- The name of the first cookie is read right. -/
theorem nameOf_first (p : Pair) (ps : List Pair) :
    nameOf (textFrom 0 p ps) = p.name := by
  rw [nameOf_textFrom, Nat.add_zero, List.take_left]

/-- **The name of any other cookie is read with the `=`.** -/
theorem nameOf_later (p : Pair) (ps : List Pair) :
    nameOf (textFrom 1 p ps) = p.name ++ [61] := by
  rw [nameOf_textFrom, List.take_length_add_append]
  rfl

/-- The value of the last cookie is read right. -/
theorem valueOf_last (k : ℕ) (p : Pair) :
    restOf (textFrom k p []) = none ∧ valueOf (textFrom k p []) = p.value := by
  have hbegins := beginsBehind_textFrom k p []
  rw [tailText, List.append_nil] at hbegins
  exact hbegins.last p.semicolon_notMem_value

/-- **The value of any other cookie is read with a `;`**, and the cookies behind
it are what is left. -/
theorem valueOf_more (k : ℕ) (p q : Pair) (ps : List Pair) :
    restOf (textFrom k p (q :: ps)) = some (textFrom 1 q ps)
      ∧ 59 ∈ valueOf (textFrom k p (q :: ps)) := by
  have hbegins := beginsBehind_textFrom k p (q :: ps)
  rw [tailText] at hbegins
  refine ⟨?_, hbegins.semicolon_mem_valueOf p.semicolon_notMem_value ?_⟩
  · rw [(hbegins.more p.semicolon_notMem_value).1, serialise_cons]
    rfl
  · exact List.append_ne_nil_of_right_ne_nil _ (List.cons_ne_nil _ _)

/-- **The lookup behind the first cookie** finds something exactly if the key is
a name with an `=` behind it. -/
theorem getCookie_later (p : Pair) (ps : List Pair) (key : Bytes) :
    getCookie (textFrom 1 p ps) key = .ok none
      ↔ ∀ q ∈ p :: ps, streqL (q.name ++ [61]) key ≠ true := by
  induction ps generalizing p with
  | nil =>
    rw [List.forall_mem_singleton, ← nameOf_later p []]
    by_cases hname : streqL (nameOf (textFrom 1 p [])) key = true
    · rw [getCookie_of_answer (not_blank_textFrom 1 p []) hname]
      exact iff_of_false (fun h => by cases h) (fun h => h hname)
    · rw [getCookie_of_last (not_blank_textFrom 1 p []) hname
        (valueOf_last 1 p).1]
      exact iff_of_true rfl hname
  | cons q ps ih =>
    rw [List.forall_mem_cons, ← ih q, ← nameOf_later p (q :: ps)]
    by_cases hname : streqL (nameOf (textFrom 1 p (q :: ps))) key = true
    · rw [getCookie_of_answer (not_blank_textFrom 1 p _) hname]
      exact iff_of_false (fun h => by cases h) (fun h => h.1 hname)
    · rw [getCookie_of_more (not_blank_textFrom 1 p _) hname
        (valueOf_more 1 p q ps).1]
      exact (and_iff_right hname).symm

/-- **The lookup finds the cookie**: it returns the value of the first cookie of
that name, up to case, if there is one. -/
def FindsCookie (cookies : List Pair) (key : Bytes) : Prop :=
  getCookie (serialise cookies) key
    = .ok ((cookies.find? fun p => streqL p.name key).map Pair.value)

/-- The field begins with its first cookie. -/
theorem serialise_eq_textFrom (p : Pair) (ps : List Pair) :
    serialise (p :: ps) = textFrom 0 p ps := serialise_cons p ps

/-- **Exactly these lookups find their cookie**: those in a field of one cookie,
and those for a key that is neither the name of a cookie nor, with an `=` behind
it, that of one behind the first. -/
theorem findsCookie_iff (p : Pair) (ps : List Pair) (key : Bytes) :
    FindsCookie (p :: ps) key
      ↔ ps = [] ∨ (∀ q ∈ p :: ps, streqL q.name key ≠ true)
        ∧ ∀ q ∈ ps, streqL (q.name ++ [61]) key ≠ true := by
  unfold FindsCookie
  rw [serialise_eq_textFrom]
  have hblank := not_blank_textFrom 0 p ps
  let named : Pair → Bool := fun p => streqL p.name key
  change _ = Except.ok (Option.map Pair.value ((p :: ps).find? named)) ↔ _
  cases ps with
  | nil =>
    refine iff_of_true ?_ (Or.inl rfl)
    by_cases hname : named p = true
    · rw [getCookie_of_answer hblank (by rw [nameOf_first]; exact hname),
        (valueOf_last 0 p).2, List.find?_cons_of_pos hname]
      rfl
    · rw [getCookie_of_last hblank (by rw [nameOf_first]; exact hname)
        (valueOf_last 0 p).1, List.find?_cons_of_neg hname]
      rfl
  | cons q ps =>
    rw [or_iff_right (List.cons_ne_nil q ps)]
    by_cases hname : named p = true
    · -- the value is cut too far behind
      rw [getCookie_of_answer hblank (by rw [nameOf_first]; exact hname),
        List.find?_cons_of_pos hname]
      refine iff_of_false (fun h => ?_) fun h => h.1 p List.mem_cons_self hname
      have hvalue : valueOf (textFrom 0 p (q :: ps)) = p.value :=
        Option.some.inj (Except.ok.inj h)
      exact p.semicolon_notMem_value (hvalue ▸ (valueOf_more 0 p q ps).2)
    · rw [getCookie_of_more hblank (by rw [nameOf_first]; exact hname)
        (valueOf_more 0 p q ps).1, List.find?_cons_of_neg hname,
        List.forall_mem_cons, and_iff_right hname]
      cases hfind : (q :: ps).find? named with
      | none =>
        rw [List.find?_eq_none] at hfind
        rw [and_iff_right hfind]
        exact getCookie_later q ps key
      | some r =>
        have hnamed := List.find?_some hfind
        have hmem := List.mem_of_find?_eq_some hfind
        refine iff_of_false (fun h => ?_) fun h => h.1 r hmem hnamed
        -- a key without an `=` is not found behind the first cookie
        have hkey : 61 ∉ key := fun h => r.equals_notMem_name
          ((mem_iff_of_streqL hnamed (by decide)).mpr h)
        have hnone := (getCookie_later q ps key).mpr fun t _ ht => hkey
          ((mem_iff_of_streqL ht (by decide)).mp
            (List.mem_append_right _ List.mem_cons_self))
        rw [hnone] at h
        cases h

/-- A cookie of one name. -/
def cookieA : Pair :=
  ⟨bytes "a", bytes "1", by decide, by decide, by decide, by decide, by decide,
    by decide⟩

/-- A cookie of another. -/
def cookieB : Pair :=
  ⟨bytes "b", bytes "2", by decide, by decide, by decide, by decide, by decide,
    by decide⟩

/-- **The first of two cookies** is returned with the beginning of the
second. -/
theorem twoCookies_not_findsCookie :
    ¬ ∀ (p : Pair) (ps : List Pair) (key : Bytes), FindsCookie (p :: ps) key := by
  intro h
  have hfinds := h cookieA [cookieB] (bytes "a")
  unfold FindsCookie at hfinds
  rw [getCookie_of_answer (by decide) (by decide)] at hfinds
  exact absurd hfinds (by decide)

end Cookie
