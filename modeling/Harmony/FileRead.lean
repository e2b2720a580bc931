import Harmony.DataStream
import Mathlib.Algebra.BigOperators.Group.Finset.Piecewise
import Mathlib.Order.Filter.AtTopBot.Basic
import Mathlib.Order.Filter.Finite

/-!
# Reading from a file that changes

`FileStream::send` reads until it has got all it was asked for. How much that
may be is counted from the length that the file had when it was last looked at,
and the file may be shorter by now. At its end a `pread` brings nothing, which is
no error: the loop asks again, and again.

The loop is sure to end exactly if from some `pread` on the file is long enough
(`FileStream.ends_iff`). Otherwise there are answers of `pread`, all as they
should be, that it does not end on.
-/

/-! ## Values taken infinitely often -/

/-- **A value that is taken infinitely often.** Infinitely many values below a
bound cannot all be different. -/
theorem exists_frequently_eq {size : ℕ → ℕ} {bound : ℕ}
    (h : ∃ᶠ t in Filter.atTop, size t < bound) :
    ∃ v < bound, ∃ᶠ t in Filter.atTop, size t = v := by
  by_contra hnone
  have hnever : ∀ v ∈ Finset.range bound, ∀ᶠ t in Filter.atTop, size t ≠ v := by
    intro v hv
    by_contra hoften
    exact hnone ⟨v, Finset.mem_range.mp hv, fun hne => hoften hne⟩
  refine h (((Filter.eventually_all_finset _).mpr hnever).mono fun t ht hlt => ?_)
  exact ht (size t) (Finset.mem_range.mpr hlt) rfl

/-! ## What the preads answer -/

/-- How many bytes a `pread` brings. -/
def PreadAnswer.count : PreadAnswer → ℕ
  | .data bs => bs.length
  | .interrupted => 0
  | .failed => 0

/-- How many bytes the `pread`s before the `t`-th one bring. -/
def delivered (reads : ℕ → PreadAnswer) (t : ℕ) : ℕ :=
  ∑ u ∈ Finset.range t, (reads u).count

/-- **What `pread` is documented to answer** on a file that is of a `size` at each
call, from an offset on and with `wlen` bytes wanted: no more than is wanted and
left, and nothing only at the end of the file. Nor is it interrupted for ever. -/
structure IsPread (size : ℕ → ℕ) (pos wlen : ℕ) (reads : ℕ → PreadAnswer) :
    Prop where
  le_wanted : ∀ t, delivered reads t + (reads t).count ≤ wlen
  le_left : ∀ t, (reads t).count ≤ size t - (pos + delivered reads t)
  at_end : ∀ t, reads t = .data [] → delivered reads t < wlen →
    size t ≤ pos + delivered reads t
  resumes : ∀ t, ∃ u, t ≤ u ∧ reads u ≠ .interrupted

/-- What the first `pread` brings comes before all the rest. -/
theorem delivered_succ (reads : ℕ → PreadAnswer) (t : ℕ) :
    delivered reads (t + 1)
      = (reads 0).count + delivered (fun u => reads (u + 1)) t := by
  unfold delivered
  rw [Finset.sum_range_succ', Nat.add_comm]

/-- **Behind the first answer** the others are what they should be for what is
left. -/
theorem IsPread.tail {size : ℕ → ℕ} {pos wlen : ℕ} {reads : ℕ → PreadAnswer}
    (h : IsPread size pos wlen reads) :
    IsPread (fun t => size (t + 1)) (pos + (reads 0).count)
      (wlen - (reads 0).count) fun t => reads (t + 1) where
  le_wanted := fun t => by
    have hle := h.le_wanted (t + 1)
    rw [delivered_succ] at hle
    omega
  le_left := fun t => by
    have hle := h.le_left (t + 1)
    rw [delivered_succ] at hle
    omega
  at_end := fun t hnil hlt => by
    have hend := h.at_end (t + 1) hnil
    rw [delivered_succ] at hend
    omega
  resumes := fun t => by
    obtain ⟨u, hle, hu⟩ := h.resumes (t + 1)
    exact ⟨u - 1, by omega, by rwa [Nat.sub_add_cancel (by omega)]⟩

/-- The first answers. -/
def firstReads (reads : ℕ → PreadAnswer) (n : ℕ) : List PreadAnswer :=
  (List.range n).map reads

theorem firstReads_succ (reads : ℕ → PreadAnswer) (n : ℕ) :
    firstReads reads (n + 1)
      = reads 0 :: firstReads (fun t => reads (t + 1)) n := by
  unfold firstReads
  rw [List.range_succ_eq_map, List.map_cons, List.map_map]
  rfl

/-- They bring what is delivered. -/
theorem sum_firstReads (reads : ℕ → PreadAnswer) (n : ℕ) :
    ((firstReads reads n).map PreadAnswer.count).sum = delivered reads n := by
  induction n generalizing reads with
  | zero => rfl
  | succ n ih =>
    rw [firstReads_succ, List.map_cons, List.sum_cons, ih, delivered_succ]

namespace FileStream

variable {N : ℕ}

/-- **How a call should end**: with all the bytes asked for appended, or with an
error. -/
def Completes (s : FileStream) (wb : Buffer N) (wlen : ℕ) :
    Sent FileStream N → Prop
  | .returned .ok s' wb' =>
    s'.pos = s.pos + wlen ∧ ∃ src, src.length = wlen ∧ wb.Appends wb' src
  | .returned _ _ _ => True
  | .fault _ => False
  | .unfinished => False

/-- **The call ends**, whatever the `pread`s on the file answer. -/
def Ends (s : FileStream) (wb : Buffer N) (wlen : ℕ) (size : ℕ → ℕ) : Prop :=
  ∀ reads, IsPread size s.pos wlen reads →
    ∃ n, Completes s wb wlen (s.send wb wlen (firstReads reads n))

/-- A call that completes behind a read completes with it. -/
theorem Completes.trans {s s₁ : FileStream} {wb wb₁ : Buffer N} {src : Bytes}
    {wlen : ℕ} {r : Sent FileStream N} (h : Completes s₁ wb₁ wlen r)
    (happ : wb.Appends wb₁ src) (hpos : s₁.pos = s.pos + src.length) :
    Completes s wb (src.length + wlen) r := by
  cases r with
  | fault f => exact h
  | unfinished => exact h
  | returned code s' wb' =>
    cases code with
    | wouldBlock => trivial
    | temporalCallbackFailure => trivial
    | ok =>
      obtain ⟨hpos', src', hlength, happ'⟩ := h
      refine ⟨by rw [hpos', hpos, Nat.add_assoc], src ++ src', ?_,
        happ.trans happ'⟩
      rw [List.length_append, hlength]

/-! ## A file that is long enough -/

/-- A read that brings some bytes leaves the rest to be completed. -/
theorem exists_completes_of_data {reads : ℕ → PreadAnswer} {s : FileStream}
    {wb : Buffer N} {wlen : ℕ} {bs : Bytes} (hdata : reads 0 = .data bs)
    (hbs : bs.length ≤ wlen + 1) (hroom : wlen + 1 ≤ wb.wleft)
    (hleft : s.pos + (wlen + 1) ≤ s.length)
    (hrest : ∀ (s₁ : FileStream) (wb₁ : Buffer N), s₁.pos = s.pos + bs.length →
      wlen + 1 - bs.length ≤ wb₁.wleft →
      s₁.pos + (wlen + 1 - bs.length) ≤ s₁.length →
      ∃ n, Completes s₁ wb₁ (wlen + 1 - bs.length)
        (s₁.sendLoop wb₁ (wlen + 1 - bs.length)
          (firstReads (fun t => reads (t + 1)) n))) :
    ∃ n, Completes s wb (wlen + 1)
      (s.sendLoop wb (wlen + 1) (firstReads reads n)) := by
  obtain ⟨s₁, wb₁, hstep, happ, hlength, hpos⟩ := sendLoop_data bs hroom hleft
  rw [List.take_of_length_le hbs] at happ hpos
  have hwleft := happ.wleft_eq
  obtain ⟨n, hn⟩ := hrest s₁ wb₁ hpos (by omega) (by omega)
  refine ⟨n + 1, ?_⟩
  rw [firstReads_succ, hdata, hstep]
  have hall := hn.trans happ hpos
  rwa [Nat.add_sub_cancel' hbs] at hall

/-- **The loop completes with a file that is long enough** from the `u`-th `pread`
on, which is not interrupted. -/
theorem exists_completes {size : ℕ → ℕ} {reads : ℕ → PreadAnswer} {s : FileStream}
    {wb : Buffer N} {wlen u : ℕ} (hread : IsPread size s.pos wlen reads)
    (hroom : wlen ≤ wb.wleft) (hleft : s.pos + wlen ≤ s.length)
    (hu : reads u ≠ .interrupted) (hlong : ∀ t, u ≤ t → s.pos + wlen ≤ size t) :
    ∃ n, Completes s wb wlen (s.sendLoop wb wlen (firstReads reads n)) := by
  -- a read that brings nothing comes before the `u`-th one
  induction wlen using Nat.strong_induction_on
    generalizing size reads s wb u with
  | _ wlen ihwlen =>
  cases wlen with
  | zero => exact ⟨0, rfl, [], rfl, .refl wb⟩
  | succ wlen =>
    induction u using Nat.strong_induction_on generalizing size reads s wb with
    | _ u ihu =>
    have htail := hread.tail
    cases hfirst : reads 0 with
    | failed =>
      refine ⟨1, ?_⟩
      rw [firstReads_succ, hfirst]
      trivial
    | interrupted =>
      have hpos : 0 < u := Nat.pos_of_ne_zero fun h => hu (h ▸ hfirst)
      rw [hfirst] at htail
      have hu' : reads (u - 1 + 1) ≠ .interrupted := by
        rwa [Nat.sub_add_cancel hpos]
      obtain ⟨n, hn⟩ := ihu (u - 1) (by omega) hu' htail hroom hleft
        fun t ht => hlong (t + 1) (by omega)
      refine ⟨n + 1, ?_⟩
      rw [firstReads_succ, hfirst]
      exact hn
    | data bs =>
      have hbs : bs.length ≤ wlen + 1 := by
        have hle := hread.le_wanted 0
        rw [hfirst] at hle
        exact hle.trans' (Nat.le_add_left _ _)
      refine exists_completes_of_data hfirst hbs hroom hleft
        fun s₁ wb₁ hpos₁ hroom₁ hleft₁ => ?_
      have hcount : (reads 0).count = bs.length := by rw [hfirst]; rfl
      rw [hcount, ← hpos₁] at htail
      cases bs with
      | nil =>
        have hpos : 0 < u := Nat.pos_of_ne_zero fun h => by
          have hend := hread.at_end 0 hfirst (Nat.succ_pos _)
          have hsize := hlong 0 (Nat.le_of_eq h)
          have hnone : delivered reads 0 = 0 := rfl
          omega
        have hu' : reads (u - 1 + 1) ≠ .interrupted := by
          rwa [Nat.sub_add_cancel hpos]
        refine ihu (u - 1) (by omega) hu' htail hroom₁ hleft₁ fun t ht => ?_
        rw [hpos₁]
        exact hlong (t + 1) (by omega)
      | cons b bs =>
        obtain ⟨u', hle, hu'⟩ := htail.resumes (u - 1)
        rw [List.length_cons] at hpos₁ hroom₁ hleft₁ htail ⊢
        refine ihwlen (wlen + 1 - (bs.length + 1)) (by omega) htail hroom₁
          hleft₁ hu' fun t ht => ?_
        have hsize := hlong (t + 1) (by omega)
        have hlen : bs.length + 1 ≤ wlen + 1 := hbs
        omega

/-! ## A file that is too short -/

/-- **The loop goes on** as long as the `pread`s neither fail nor bring all. -/
theorem sendLoop_unfinished {reads : List PreadAnswer} {s : FileStream}
    {wb : Buffer N} {wlen : ℕ} (hfail : .failed ∉ reads)
    (hshort : (reads.map PreadAnswer.count).sum < wlen)
    (hroom : wlen ≤ wb.wleft) (hleft : s.pos + wlen ≤ s.length) :
    s.sendLoop wb wlen reads = .unfinished := by
  induction reads generalizing s wb wlen with
  | nil =>
    obtain ⟨wlen, rfl⟩ := Nat.exists_eq_succ_of_ne_zero (Nat.ne_zero_of_lt hshort)
    rfl
  | cons a reads ih =>
    obtain ⟨wlen, rfl⟩ := Nat.exists_eq_succ_of_ne_zero (Nat.ne_zero_of_lt hshort)
    rw [List.map_cons, List.sum_cons] at hshort
    rw [List.mem_cons, not_or] at hfail
    cases a with
    | failed => exact absurd rfl hfail.1
    | interrupted => exact ih hfail.2 (Nat.lt_of_add_left_lt hshort) hroom hleft
    | data bs =>
      obtain ⟨s₁, wb₁, hstep, happ, hlength, hpos⟩ := sendLoop_data bs hroom hleft
      have hbs : bs.length + (reads.map PreadAnswer.count).sum < wlen + 1 := hshort
      rw [List.take_of_length_le (by omega)] at happ hpos
      have hwleft := happ.wleft_eq
      rw [hstep reads]
      exact ih hfail.2 (by omega) (by omega) (by omega)

/-- **Answers that bring nothing in the end**: up to the `first` one they are
interrupted, as are all those at a time when the file is not of the length `v`;
the `first` one brings what there is up to `v`, and the others are at the end of
the file. -/
def stalling (size : ℕ → ℕ) (pos v first : ℕ) : ℕ → PreadAnswer := fun t =>
  if t < first ∨ size t ≠ v then .interrupted
  else if t = first then .data (List.replicate (v - pos) 0)
  else .data []

section Stalling

variable {size : ℕ → ℕ} {pos v first : ℕ}

theorem stalling_ne_failed (t : ℕ) :
    stalling size pos v first t ≠ .failed := by
  unfold stalling
  split_ifs <;> exact nofun

theorem count_stalling (hfirst : size first = v) (t : ℕ) :
    (stalling size pos v first t).count = if t = first then v - pos else 0 := by
  unfold stalling
  by_cases ht : t = first
  · subst ht
    rw [if_neg (by simp [hfirst]), if_pos rfl, if_pos rfl]
    exact List.length_replicate
  · rw [if_neg ht, if_neg ht]
    split_ifs <;> rfl

/-- They bring something once. -/
theorem delivered_stalling (hfirst : size first = v) (t : ℕ) :
    delivered (stalling size pos v first) t
      = if first < t then v - pos else 0 := by
  unfold delivered
  simp only [count_stalling hfirst]
  rw [Finset.sum_ite_eq']
  simp only [Finset.mem_range]

/-- **They are what they should be**, if the file is of that length infinitely
often. -/
theorem isPread_stalling {wlen : ℕ} (hfirst : size first = v)
    (hoften : ∃ᶠ t in Filter.atTop, size t = v) (hv : v ≤ pos + wlen) :
    IsPread size pos wlen (stalling size pos v first) where
  le_wanted := fun t => by
    rw [delivered_stalling hfirst, count_stalling hfirst]
    split_ifs <;> omega
  le_left := fun t => by
    rw [delivered_stalling hfirst, count_stalling hfirst]
    split_ifs with h₁ h₂
    · omega
    · subst h₁
      omega
    · omega
    · omega
  at_end := fun t hnil _ => by
    rw [delivered_stalling hfirst]
    unfold stalling at hnil
    split_ifs at hnil with h₁ h₂
    · have hlength := congrArg List.length (PreadAnswer.data.inj hnil)
      rw [List.length_replicate, List.length_nil] at hlength
      rw [if_neg (by omega)]
      omega
    · rw [if_pos (by omega)]
      omega
  resumes := fun t => by
    obtain ⟨u, hle, hu⟩ := Filter.frequently_atTop.mp hoften (max t first)
    refine ⟨u, by omega, ?_⟩
    unfold stalling
    rw [if_neg (by omega)]
    split_ifs <;> exact nofun

end Stalling

/-- A call that asks for no more than there should be is the loop. -/
theorem send_of_le {s : FileStream} {wb : Buffer N} {wlen : ℕ}
    (hleft : wlen ≤ s.length - s.pos) (reads : List PreadAnswer) :
    s.send wb wlen reads = s.sendLoop wb wlen reads := if_pos hleft

/-- **The call is not sure to end** if the file is, infinitely often, too short. -/
theorem not_ends {s : FileStream} {wb : Buffer N} {wlen : ℕ} {size : ℕ → ℕ}
    (hleft : wlen ≤ s.length - s.pos) (hroom : wlen ≤ wb.wleft) (hpos : 0 < wlen)
    (hshort : ∃ᶠ t in Filter.atTop, size t < s.pos + wlen) :
    ¬ s.Ends wb wlen size := by
  obtain ⟨v, hv, hoften⟩ := exists_frequently_eq hshort
  obtain ⟨first, hfirst⟩ := hoften.exists
  intro h
  obtain ⟨n, hn⟩ := h _ (isPread_stalling hfirst hoften hv.le)
  have hle := s.pos_le
  rw [send_of_le hleft, sendLoop_unfinished ?_ ?_ hroom (by omega)] at hn
  · exact hn
  · intro hmem
    obtain ⟨t, -, ht⟩ := List.mem_map.mp hmem
    exact stalling_ne_failed t ht
  · rw [sum_firstReads, delivered_stalling hfirst]
    split_ifs <;> omega

/-- **The call is sure to end exactly if** nothing is asked for, or if from some
`pread` on the file is as long as the bytes asked for reach. -/
theorem ends_iff (s : FileStream) (wb : Buffer N) (wlen : ℕ) (size : ℕ → ℕ)
    (hleft : wlen ≤ s.length - s.pos) (hroom : wlen ≤ wb.wleft) :
    s.Ends wb wlen size
      ↔ wlen = 0 ∨ ∀ᶠ t in Filter.atTop, s.pos + wlen ≤ size t := by
  constructor
  · intro h
    rcases Nat.eq_zero_or_pos wlen with hzero | hpos
    · exact Or.inl hzero
    · refine Or.inr ?_
      by_contra hshort
      rw [Filter.not_eventually] at hshort
      simp only [not_le] at hshort
      exact not_ends hleft hroom hpos hshort h
  · rintro (rfl | hlong) reads hread
    · exact ⟨0, rfl, [], rfl, .refl wb⟩
    · obtain ⟨T, hT⟩ := Filter.eventually_atTop.mp hlong
      obtain ⟨u, hle, hu⟩ := hread.resumes T
      have hpos := s.pos_le
      obtain ⟨n, hn⟩ := exists_completes hread hroom (by omega) hu
        fun t ht => hT t (hle.trans ht)
      exact ⟨n, send_of_le hleft _ ▸ hn⟩

/-- A file of twenty bytes, when it was last looked at. -/
def shortened : FileStream := ⟨3, 20, 0, by decide, by decide⟩

/-- As long as it has its twenty bytes, they are sent. -/
theorem shortened_ends :
    20 ≤ shortened.length - shortened.pos
      ∧ 20 ≤ (Buffer.empty (64 * 1024)).wleft
      ∧ shortened.Ends (Buffer.empty (64 * 1024)) 20 fun _ => 20 :=
  ⟨by decide, by decide, (ends_iff shortened _ 20 _ (by decide) (by decide)).mpr
    (Or.inr (Filter.Eventually.of_forall fun _ => by decide))⟩

/-- **A file that was emptied** is read from for ever. -/
theorem emptied_not_ends :
    ¬ ∀ (s : FileStream) (wb : Buffer (64 * 1024)) (wlen : ℕ) (size : ℕ → ℕ),
      wlen ≤ s.length - s.pos → wlen ≤ wb.wleft → s.Ends wb wlen size := by
  intro h
  have hleft : 20 ≤ shortened.length - shortened.pos := by decide
  have hroom : 20 ≤ (Buffer.empty (64 * 1024)).wleft := by decide
  have hshort : ∃ᶠ _ : ℕ in Filter.atTop, 0 < shortened.pos + 20 :=
    Filter.Frequently.of_forall fun _ => by decide
  exact not_ends hleft hroom (by decide) hshort (h _ _ _ (fun _ => 0) hleft hroom)

end FileStream
