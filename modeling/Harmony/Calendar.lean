import Mathlib.Logic.Function.Iterate
import Mathlib.Order.Monotone.Basic
import Mathlib.Tactic.Ring
import Mathlib.Tactic.SplitIfs

/-!
# The Gregorian calendar

A date is a year, a month and a day of that month. What makes a calendar of the
dates is the order in which they follow each other, `Date.next` and `Date.prev`;
`ofDays` is the date so many days after, or before, another one.

Nothing is counted there. `Date.serial` counts: the days of the years before,
those of the months before, and the days of the month. A step of the calendar is
a step of the count (`serial_next`, `serial_prev`), so that the count of
`ofDays` is known, however far away the date (`serial_ofDays`). The calendar is
proleptic: all years, the negative ones too, have the same rule for leap days.
-/

namespace Calendar

/-! ## Years and months -/

/-- Whether a year has a leap day. -/
def IsLeap (y : ℤ) : Prop := y % 4 = 0 ∧ (y % 100 ≠ 0 ∨ y % 400 = 0)

instance : DecidablePred IsLeap :=
  fun y => inferInstanceAs (Decidable (y % 4 = 0 ∧ (y % 100 ≠ 0 ∨ y % 400 = 0)))

/-- The days of a month; January is month zero. -/
def monthLength (y : ℤ) : ℕ → ℕ
  | 1 => if IsLeap y then 29 else 28
  | 3 | 5 | 8 | 10 => 30
  | _ => 31

theorem monthLength_pos (y : ℤ) (m : ℕ) : 0 < monthLength y m := by
  unfold monthLength
  split
  · split_ifs <;> decide
  all_goals decide

theorem monthLength_le (y : ℤ) (m : ℕ) : monthLength y m ≤ 31 := by
  unfold monthLength
  split
  · split_ifs <;> decide
  all_goals decide

/-- **A date of the calendar.** -/
structure Date where
  year : ℤ
  month : ℕ
  day : ℕ
  month_lt : month < 12
  day_pos : 0 < day
  day_le : day ≤ monthLength year month

namespace Date

/-- The first day of a month. -/
def first (y : ℤ) (m : ℕ) (h : m < 12) : Date :=
  ⟨y, m, 1, h, Nat.one_pos, monthLength_pos y m⟩

/-- The last day of a month. -/
def last (y : ℤ) (m : ℕ) (h : m < 12) : Date :=
  ⟨y, m, monthLength y m, h, monthLength_pos y m, le_rfl⟩

/-- **The day after.** -/
def next (c : Date) : Date :=
  if hday : c.day < monthLength c.year c.month then
    { c with
      day := c.day + 1
      day_pos := Nat.succ_pos _
      day_le := hday }
  else if hmonth : c.month + 1 < 12 then first c.year (c.month + 1) hmonth
  else first (c.year + 1) 0 (by decide)

/-- **The day before.** -/
def prev (c : Date) : Date :=
  if hday : 1 < c.day then
    { c with
      day := c.day - 1
      day_pos := Nat.sub_pos_of_lt hday
      day_le := (Nat.sub_le _ _).trans c.day_le }
  else if 0 < c.month then
    last c.year (c.month - 1) ((Nat.sub_le _ _).trans_lt c.month_lt)
  else last (c.year - 1) 11 (by decide)

end Date

/-- The date so many days after another one. -/
def ofDays (origin : Date) : ℤ → Date
  | .ofNat n => Date.next^[n] origin
  | .negSucc n => Date.prev^[n + 1] origin

/-! ## Counting the days -/

/-- The leap years from year one up to a year. -/
def leapsBefore (y : ℤ) : ℤ := (y - 1) / 4 - (y - 1) / 100 + (y - 1) / 400

/-- The days before a year. -/
def yearStart (y : ℤ) : ℤ := 365 * y + leapsBefore y

/-- The days of a year before a month. -/
def monthStart (y : ℤ) : ℕ → ℕ
  | 0 => 0
  | m + 1 => monthStart y m + monthLength y m

/-- **The days before a date.** -/
def Date.serial (c : Date) : ℤ :=
  yearStart c.year + monthStart c.year c.month + (c.day - 1)

/-- The leap years up to a year are those up to the year before, and perhaps
that one. -/
theorem leapsBefore_succ (y : ℤ) :
    leapsBefore (y + 1) = leapsBefore y + if IsLeap y then 1 else 0 := by
  unfold leapsBefore IsLeap
  split_ifs <;> omega

theorem monthStart_twelve (y : ℤ) :
    (monthStart y 12 : ℤ) = 365 + if IsLeap y then 1 else 0 := by
  simp only [monthStart, monthLength]
  split_ifs <;> rfl

theorem yearStart_succ (y : ℤ) :
    yearStart (y + 1) = yearStart y + monthStart y 12 := by
  rw [monthStart_twelve, yearStart, yearStart, leapsBefore_succ]
  ring

theorem yearStart_mono {y z : ℤ} (h : y ≤ z) : yearStart y ≤ yearStart z := by
  rcases h.eq_or_lt with rfl | hlt
  · exact le_rfl
  · unfold yearStart leapsBefore
    omega

theorem monthStart_mono (y : ℤ) : Monotone (monthStart y) :=
  monotone_nat_of_le_succ fun _ => Nat.le_add_right _ _

namespace Date

theorem yearStart_le_serial (c : Date) : yearStart c.year ≤ c.serial := by
  have hday := c.day_pos
  unfold serial
  omega

/-- A date comes before the next year. -/
theorem serial_lt_yearStart (c : Date) : c.serial < yearStart (c.year + 1) := by
  have hday := c.day_le
  have hmonth : monthStart c.year (c.month + 1) ≤ monthStart c.year 12 :=
    monthStart_mono c.year c.month_lt
  rw [monthStart] at hmonth
  rw [yearStart_succ, serial]
  omega

/-- **The years in the order of the days.** -/
theorem year_lt_iff (c : Date) (y : ℤ) :
    c.year < y ↔ c.serial < yearStart y := by
  constructor
  · intro h
    exact c.serial_lt_yearStart.trans_le (yearStart_mono h)
  · intro h
    by_contra hge
    have hle := (yearStart_mono (Int.not_lt.mp hge)).trans c.yearStart_le_serial
    omega

theorem serial_first (y : ℤ) (m : ℕ) (h : m < 12) :
    (first y m h).serial = yearStart y + monthStart y m := by
  simp [serial, first]

theorem serial_last (y : ℤ) (m : ℕ) (h : m < 12) :
    (last y m h).serial = yearStart y + monthStart y (m + 1) - 1 := by
  simp only [serial, last, monthStart]
  push_cast
  ring

/-- **The next day** counts one more. -/
theorem serial_next (c : Date) : c.next.serial = c.serial + 1 := by
  have hle := c.day_le
  have hlt := c.month_lt
  unfold next
  split_ifs with hday hmonth
  · simp only [serial]
    push_cast
    ring
  · -- the last day of a month
    rw [serial_first, serial, monthStart]
    push_cast
    omega
  · -- the last day of the year
    have hdec : c.month + 1 = 12 := by omega
    rw [serial_first, yearStart_succ, ← hdec, serial, monthStart, monthStart]
    push_cast
    omega

/-- **The day before** counts one less. -/
theorem serial_prev (c : Date) : c.prev.serial = c.serial - 1 := by
  have hpos := c.day_pos
  unfold prev
  split_ifs with hday hmonth
  · simp only [serial]
    push_cast [hday.le]
    ring
  · have hone : c.day = 1 := by omega
    rw [serial_last, Nat.sub_add_cancel hmonth, serial, hone]
    ring
  · have hone : c.day = 1 := by omega
    have hjan : c.month = 0 := by omega
    have hyear := yearStart_succ (c.year - 1)
    rw [sub_add_cancel] at hyear
    rw [serial_last, ← hyear, serial, hone, hjan, monthStart]
    ring

end Date

theorem serial_iterate {f : Date → Date} {k : ℤ}
    (hf : ∀ c, (f c).serial = c.serial + k) (n : ℕ) (c : Date) :
    (f^[n] c).serial = c.serial + n * k := by
  induction n with
  | zero => simp
  | succ n ih =>
    rw [Function.iterate_succ_apply', hf, ih]
    push_cast
    ring

/-- **The count of a date** that is so many days away. -/
theorem serial_ofDays (origin : Date) (n : ℤ) :
    (ofDays origin n).serial = origin.serial + n := by
  cases n with
  | ofNat n =>
    rw [ofDays, serial_iterate Date.serial_next]
    simp
  | negSucc n =>
    have hback : ∀ c : Date, c.prev.serial = c.serial + -1 := Date.serial_prev
    rw [ofDays, serial_iterate hback, Int.negSucc_eq]
    push_cast
    ring

end Calendar
