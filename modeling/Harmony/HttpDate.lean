import Harmony.Calendar
import Harmony.RequestHeaders
import Mathlib.Data.List.TakeWhile
import Mathlib.Tactic.IntervalCases

/-!
# The dates of HTTP

`http_date` writes a time for the header of a response, and `parse_http_date`
reads the one that comes back with a conditional request. The first leaves the
calendar to `gmtime_r`; the second has the text taken apart by `strptime` and
counts the days on its own, with a table of the months, a formula for the leap
years and a day more from March on.

`strptime` undoes the writing directive by directive, and the counting undoes
`gmtime_r`: it is `Date.serial`, counted from 1970.
-/

open Calendar

namespace HttpDate

/-- `struct tm`, as far as it is used. -/
structure Tm where
  sec : ℤ
  min : ℤ
  hour : ℤ
  mday : ℤ
  mon : ℤ
  year : ℤ
  wday : ℤ
  deriving DecidableEq, Repr

/-- A computation in `int`. -/
def int32 (x : ℤ) : Except Fault ℤ :=
  if -2 ^ 31 ≤ x ∧ x < 2 ^ 31 then .ok x else .error .intOverflow

theorem int32_ok {x : ℤ} (hlow : -2 ^ 31 ≤ x) (hhigh : x < 2 ^ 31) :
    int32 x = .ok x :=
  if_pos ⟨hlow, hhigh⟩

/-! ## The library's calendar -/

/-- The first day of 1970, a Thursday. -/
def epoch : Date := Date.first 1970 0 (Nat.succ_pos 11)

/-- **`gmtime_r`**: the date and the time of day, unless the year does not fit
into an `int`. -/
def gmtime (t : ℤ) : Option Tm :=
  let date := ofDays epoch (t / 86400)
  let rem := t % 86400
  if -2 ^ 31 ≤ date.year - 1900 ∧ date.year - 1900 < 2 ^ 31 then
    some {
      sec := rem % 60
      min := rem / 60 % 60
      hour := rem / 3600
      mday := date.day
      mon := date.month
      year := date.year - 1900
      wday := (t / 86400 + 4) % 7 }
  else none

/-- White space, in the C locale. -/
def isspace (c : UInt8) : Bool := c == 32 || (9 ≤ c && c ≤ 13)

def isdigit (c : UInt8) : Bool := 48 ≤ c && c ≤ 57

def skipSpace (s : Bytes) : Bytes := s.dropWhile isspace

/-- A text in front, in any case: what is behind it. -/
def matchString : Bytes → Bytes → Option Bytes
  | [], s => some s
  | _ :: _, [] => none
  | c :: name, x :: s =>
    if toLower c = toLower x then matchString name s else none

/-- The longest of some numbered names that a text begins with, and what is
behind it. -/
def matchNames (names : List (ℤ × Bytes)) (s : Bytes) : Option (ℤ × Bytes) :=
  names.foldl (fun longest (cnt, name) =>
    match matchString name s, longest with
    | none, _ => longest
    | some rest, none => some (cnt, rest)
    | some rest, some (_, rest') =>
      if rest.length < rest'.length then some (cnt, rest) else longest) none

/-- The names of the days in the C locale, in full and abbreviated. -/
def weekdayNames : List (ℤ × Bytes) :=
  [(0, bytes "Sunday"), (0, bytes "Sun"), (1, bytes "Monday"),
    (1, bytes "Mon"), (2, bytes "Tuesday"), (2, bytes "Tue"),
    (3, bytes "Wednesday"), (3, bytes "Wed"), (4, bytes "Thursday"),
    (4, bytes "Thu"), (5, bytes "Friday"), (5, bytes "Fri"),
    (6, bytes "Saturday"), (6, bytes "Sat")]

/-- The names of the months; May is its own abbreviation. -/
def monthNames : List (ℤ × Bytes) :=
  [(0, bytes "January"), (0, bytes "Jan"), (1, bytes "February"),
    (1, bytes "Feb"), (2, bytes "March"), (2, bytes "Mar"),
    (3, bytes "April"), (3, bytes "Apr"), (4, bytes "May"),
    (5, bytes "June"), (5, bytes "Jun"), (6, bytes "July"),
    (6, bytes "Jul"), (7, bytes "August"), (7, bytes "Aug"),
    (8, bytes "September"), (8, bytes "Sep"), (9, bytes "October"),
    (9, bytes "Oct"), (10, bytes "November"), (10, bytes "Nov"),
    (11, bytes "December"), (11, bytes "Dec")]

/-- The digits behind the first one, at most `n` of them and only as long as
the number may still be within the bound. -/
def moreDigits (bound : ℕ) : ℕ → ℕ → Bytes → ℕ × Bytes
  | 0, val, s => (val, s)
  | _ + 1, val, [] => (val, [])
  | n + 1, val, c :: s =>
    if val * 10 ≤ bound ∧ isdigit c = true then
      moreDigits bound n (val * 10 + (c - 48).toNat) s
    else (val, c :: s)

/-- A number of at most `n` digits, between two bounds. -/
def getNumber (low high n : ℕ) (s : Bytes) : Option (ℕ × Bytes) :=
  match skipSpace s with
  | [] => none
  | c :: s =>
    if isdigit c then
      let (val, rest) := moreDigits high (n - 1) (c - 48).toNat s
      if low ≤ val ∧ val ≤ high then some (val, rest) else none
    else none

/-- What a format of `strptime` is made of: `%a`, `%d`, `%b`, `%Y`, `%H`, `%M`,
`%S`, white space, and the other characters. -/
inductive Directive where
  | weekday
  | mday
  | month
  | year
  | hour
  | minute
  | second
  | space
  | char (c : UInt8)

/-- What has been read is put into a field of the time. -/
def stored {α : Type} (r : Option (α × Bytes)) (put : α → Tm) :
    Option (Bytes × Tm) :=
  r.map fun (a, s) => (s, put a)

/-- A directive reads from the front of a text. -/
def Directive.read (s : Bytes) (tm : Tm) : Directive → Option (Bytes × Tm)
  | .weekday =>
    stored (matchNames weekdayNames s) fun cnt => { tm with wday := cnt }
  | .mday => stored (getNumber 1 31 2 s) fun val => { tm with mday := val }
  | .month => stored (matchNames monthNames s) fun cnt => { tm with mon := cnt }
  | .year =>
    stored (getNumber 0 9999 4 s) fun val => { tm with year := val - 1900 }
  | .hour => stored (getNumber 0 23 2 s) fun val => { tm with hour := val }
  | .minute => stored (getNumber 0 59 2 s) fun val => { tm with min := val }
  | .second => stored (getNumber 0 61 2 s) fun val => { tm with sec := val }
  | .space => some (skipSpace s, tm)
  | .char c =>
    match s with
    | [] => none
    | x :: s => if x = c then some (s, tm) else none

/-- **`strptime`**: what is left of the text, and the time. -/
def strptime (s : Bytes) (tm : Tm) : List Directive → Option (Bytes × Tm)
  | [] => some (s, tm)
  | directive :: format =>
    (directive.read s tm).bind fun (s, tm) => strptime s tm format

/-! ## Writing a date -/

/-- `write_uint`: the last `len` digits of a number. -/
def writeUint (n : ℕ) : ℕ → Bytes
  | 0 => []
  | len + 1 => writeUint (n / 10) len ++ [UInt8.ofNat (n % 10) + 48]

/-- An `int` handed over as a `uint32_t`. -/
def toUint32 (x : ℤ) : ℕ := (x % 2 ^ 32).toNat

/-- `DAY_OF_WEEK`. -/
def dayOfWeek : List Bytes :=
  [bytes "Sun", bytes "Mon", bytes "Tue", bytes "Wed", bytes "Thu",
    bytes "Fri", bytes "Sat"]

/-- `MONTH`. -/
def month : List Bytes :=
  [bytes "Jan", bytes "Feb", bytes "Mar", bytes "Apr", bytes "May",
    bytes "Jun", bytes "Jul", bytes "Aug", bytes "Sep", bytes "Oct",
    bytes "Nov", bytes "Dec"]

/-- What `http_date` writes of a time. -/
def Tm.text (tms : Tm) : Bytes :=
  dayOfWeek.getD tms.wday.toNat [] ++ bytes ", "
    ++ writeUint (toUint32 tms.mday) 2 ++ bytes " "
    ++ month.getD tms.mon.toNat [] ++ bytes " "
    ++ writeUint (toUint32 (tms.year + 1900)) 4 ++ bytes " "
    ++ writeUint (toUint32 tms.hour) 2 ++ bytes ":"
    ++ writeUint (toUint32 tms.min) 2 ++ bytes ":"
    ++ writeUint (toUint32 tms.sec) 2 ++ bytes " GMT"

/-- **`http_date`**: the bytes it writes, if it writes any. -/
def httpDate (t : ℤ) : Option Bytes := (gmtime t).map Tm.text

/-! ## Reading a date -/

/-- `count_leap_year`. -/
def countLeapYear (y : ℤ) : Except Fault ℤ := do
  let y ← int32 (y - 1)
  let n ← int32 (y.tdiv 4 - y.tdiv 100)
  int32 (n + y.tdiv 400)

/-- `is_leap_year`. -/
def isLeapYear (y : ℤ) : Bool :=
  y.tmod 4 == 0 && (y.tmod 100 != 0 || y.tmod 400 == 0)

/-- `daysum`. -/
def daysum : List ℤ := [0, 31, 59, 90, 120, 151, 181, 212, 243, 273, 304, 334]

/-- The format `%a, %d %b %Y %H:%M:%S GMT`. -/
def dateFormat : List Directive :=
  [.weekday, .char 44, .space, .mday, .space, .month, .space, .year, .space,
    .hour, .char 58, .minute, .char 58, .second, .space, .char 71, .char 77,
    .char 84]

/-- `parse_http_date`, behind `strptime`: every step of it is one in `int`, but
for the seconds, which are counted in 64 bits and cannot overflow there. -/
def Tm.toTime (tm : Tm) : Except Fault ℤ := do
  let year ← int32 (tm.year + 1900)
  let numLeapYear ← int32 ((← countLeapYear year) - (← countLeapYear 1970))
  let days ← int32 (tm.year - 70)
  let days ← int32 (days * 365)
  let days ← int32 (days + numLeapYear)
  let days ← int32 (days + daysum.getD tm.mon.toNat 0)
  let days ← int32 (days + tm.mday)
  let days ← int32 (days - 1)
  let days ← (if tm.mon ≥ 2 ∧ isLeapYear year then int32 (days + 1) else .ok days)
  let hours ← int32 (days * 24)
  let hours ← int32 (hours + tm.hour)
  let minutes ← int32 (tm.min * 60)
  return hours * 3600 + minutes + tm.sec

/-- **`parse_http_date`.** -/
def parseHttpDate (str : Bytes) : Except Fault ℤ :=
  match strptime str ⟨0, 0, 0, 0, 0, 0, 0⟩ dateFormat with
  | none => .ok 0
  | some (_, tm) => if tm.mon > 11 then .ok (-1) else tm.toTime

/-! ## The text is read back -/

theorem matchNames_weekday {w : ℕ} (hw : w < 7) (rest : Bytes) :
    matchNames weekdayNames (dayOfWeek.getD w [] ++ 44 :: rest)
      = some (↑w, 44 :: rest) := by
  interval_cases w
  all_goals rfl

theorem matchNames_month {m : ℕ} (hm : m < 12) (rest : Bytes) :
    matchNames monthNames (month.getD m [] ++ 32 :: rest)
      = some (↑m, 32 :: rest) := by
  interval_cases m
  all_goals rfl

/-- The last digits of a number, the first one of them apart. -/
theorem writeUint_succ (n k : ℕ) :
    writeUint n (k + 1)
      = (UInt8.ofNat (n / 10 ^ k % 10) + 48) :: writeUint n k := by
  induction k generalizing n with
  | zero => simp [writeUint]
  | succ k ih =>
    rw [writeUint, ih (n / 10), Nat.div_div_eq_div_mul, ← Nat.pow_succ',
      List.cons_append, writeUint]

@[simp] theorem length_writeUint (n k : ℕ) : (writeUint n k).length = k := by
  induction k generalizing n with
  | zero => rfl
  | succ k ih => rw [writeUint, List.length_append, ih, List.length_singleton]

/-- A digit is one, and has its value. -/
theorem digit_facts : ∀ d < 10, isdigit (UInt8.ofNat d + 48) = true
    ∧ isspace (UInt8.ofNat d + 48) = false
    ∧ (UInt8.ofNat d + 48 - 48).toNat = d := by
  decide +kernel

/-- **The digits of a number** are read one by one, if the number is within the
bound. -/
theorem moreDigits_writeUint {bound k v n : ℕ} (rest : Bytes)
    (h : v * 10 ^ k + n % 10 ^ k ≤ bound) :
    moreDigits bound k v (writeUint n k ++ rest)
      = (v * 10 ^ k + n % 10 ^ k, rest) := by
  induction k generalizing v with
  | zero => simp [moreDigits, writeUint, Nat.mod_one]
  | succ k ih =>
    obtain ⟨hdigit, -, hval⟩ := digit_facts (n / 10 ^ k % 10)
      (Nat.mod_lt _ (by decide))
    have hnum : v * 10 ^ (k + 1) + n % 10 ^ (k + 1)
        = (v * 10 + n / 10 ^ k % 10) * 10 ^ k + n % 10 ^ k := by
      rw [Nat.mod_pow_succ]
      ring
    have hroom : v * 10 ≤ bound := by
      have hle : v * 10 * 1 ≤ v * 10 * 10 ^ k :=
        Nat.mul_le_mul_left _ (Nat.one_le_pow _ _ (by decide))
      have hpow : v * 10 * 10 ^ k = v * 10 ^ (k + 1) := by ring
      omega
    rw [writeUint_succ, List.cons_append, moreDigits,
      if_pos ⟨hroom, hdigit⟩, hval, hnum]
    exact ih (hnum ▸ h)

@[simp] theorem skipSpace_cons_space (s : Bytes) :
    skipSpace (32 :: s) = skipSpace s := rfl

theorem skipSpace_writeUint (n k : ℕ) (rest : Bytes) :
    skipSpace (writeUint n (k + 1) ++ rest) = writeUint n (k + 1) ++ rest := by
  obtain ⟨-, hspace, -⟩ := digit_facts (n / 10 ^ k % 10)
    (Nat.mod_lt _ (by decide))
  rw [writeUint_succ, List.cons_append, skipSpace,
    List.dropWhile_cons_of_neg (Bool.eq_false_iff.mp hspace)]

/-- **A number is read** as it was written. -/
theorem getNumber_writeUint {low high k n : ℕ} (rest : Bytes) (hlow : low ≤ n)
    (hhigh : n ≤ high) (hlt : n < 10 ^ (k + 1)) :
    getNumber low high (k + 1) (writeUint n (k + 1) ++ rest)
      = some (n, rest) := by
  have hfirst : n / 10 ^ k < 10 := by
    rw [Nat.div_lt_iff_lt_mul (Nat.pow_pos (by decide)), ← Nat.pow_succ']
    exact hlt
  obtain ⟨hdigit, -, hval⟩ := digit_facts (n / 10 ^ k) hfirst
  have hnum : n / 10 ^ k * 10 ^ k + n % 10 ^ k = n := by
    rw [mul_comm]
    exact Nat.div_add_mod n (10 ^ k)
  have hmore : moreDigits high k (n / 10 ^ k) (writeUint n k ++ rest)
      = (n, rest) := by
    rw [moreDigits_writeUint rest (hnum.le.trans hhigh), hnum]
  rw [getNumber, skipSpace_writeUint, writeUint_succ, List.cons_append,
    Nat.mod_eq_of_lt hfirst]
  simp only [hdigit, hval, Nat.add_sub_cancel, hmore, if_pos,
    and_self, hlow, hhigh]

/-- **The fields are in their ranges**, those that `strptime` reads numbers and
names for. -/
structure Tm.InRange (tm : Tm) : Prop where
  sec : 0 ≤ tm.sec ∧ tm.sec ≤ 61
  min : 0 ≤ tm.min ∧ tm.min ≤ 59
  hour : 0 ≤ tm.hour ∧ tm.hour ≤ 23
  mday : 0 ≤ tm.mday ∧ tm.mday ≤ 31
  mon : 0 ≤ tm.mon ∧ tm.mon < 12
  year : 0 ≤ tm.year + 1900 ∧ tm.year + 1900 ≤ 9999
  wday : 0 ≤ tm.wday ∧ tm.wday < 7

theorem toUint32_natCast {n : ℕ} (h : n < 2 ^ 32) : toUint32 n = n := by
  unfold toUint32
  omega

/-- A field of a time is read as it was written. -/
theorem getNumber_field (low high k : ℕ) {x : ℤ} (hx : low ≤ x ∧ x ≤ high)
    (hhigh : high < 10 ^ (k + 1)) (hfits : high < 2 ^ 32) :
    ∃ n : ℕ, x = n ∧ ∀ rest, getNumber low high (k + 1)
      (writeUint (toUint32 x) (k + 1) ++ rest) = some (n, rest) := by
  obtain ⟨n, rfl⟩ := Int.eq_ofNat_of_zero_le (by omega : 0 ≤ x)
  refine ⟨n, rfl, fun rest => ?_⟩
  rw [toUint32_natCast (by omega)]
  exact getNumber_writeUint rest (by omega) (by omega) (by omega)

/-- The text of a time, character by character. -/
theorem Tm.text_eq (tm : Tm) : tm.text
    = dayOfWeek.getD tm.wday.toNat [] ++ 44 :: 32 ::
      (writeUint (toUint32 tm.mday) 2 ++ 32 ::
        (month.getD tm.mon.toNat [] ++ 32 ::
          (writeUint (toUint32 (tm.year + 1900)) 4 ++ 32 ::
            (writeUint (toUint32 tm.hour) 2 ++ 58 ::
              (writeUint (toUint32 tm.min) 2 ++ 58 ::
                (writeUint (toUint32 tm.sec) 2 ++ [32, 71, 77, 84])))))) := by
  have hcomma : bytes ", " = [44, 32] := rfl
  have hspace : bytes " " = [32] := rfl
  have hcolon : bytes ":" = [58] := rfl
  have hgmt : bytes " GMT" = [32, 71, 77, 84] := rfl
  rw [Tm.text, hcomma, hspace, hcolon, hgmt]
  simp only [List.append_assoc, List.cons_append, List.nil_append]

theorem skipSpace_month {m : ℕ} (hm : m < 12) (rest : Bytes) :
    skipSpace (month.getD m [] ++ rest) = month.getD m [] ++ rest := by
  interval_cases m
  all_goals rfl

/-- **`strptime` reads what `http_date` writes.** -/
theorem strptime_text {tm : Tm} (h : tm.InRange) (hmday : 1 ≤ tm.mday)
    (tm₀ : Tm) : strptime tm.text tm₀ dateFormat = some ([], tm) := by
  obtain ⟨w, hw⟩ := Int.eq_ofNat_of_zero_le h.wday.1
  obtain ⟨m, hm⟩ := Int.eq_ofNat_of_zero_le h.mon.1
  obtain ⟨day, hday, readDay⟩ := getNumber_field 1 31 1
    ⟨hmday, h.mday.2⟩ (by decide) (by decide)
  obtain ⟨year, hyear, readYear⟩ := getNumber_field 0 9999 3
    h.year (by decide) (by decide)
  obtain ⟨hour, hhour, readHour⟩ := getNumber_field 0 23 1
    h.hour (by decide) (by decide)
  obtain ⟨min, hmin, readMin⟩ := getNumber_field 0 59 1
    h.min (by decide) (by decide)
  obtain ⟨sec, hsec, readSec⟩ := getNumber_field 0 61 1
    h.sec (by decide) (by decide)
  have hwlt : w < 7 := by
    have := h.wday.2
    omega
  have hmlt : m < 12 := by
    have := h.mon.2
    omega
  rw [Tm.text_eq, dateFormat, hw, hm, Int.toNat_natCast, Int.toNat_natCast]
  simp only [strptime, Directive.read, stored, Option.map_some, Option.bind_some,
    skipSpace_cons_space, if_pos, matchNames_weekday hwlt,
    skipSpace_writeUint _ 1, readDay, skipSpace_month hmlt,
    matchNames_month hmlt, skipSpace_writeUint _ 3, readYear, readHour,
    readMin, readSec]
  rw [← hsec, ← hmin, ← hhour, ← hday, ← hm, ← hyear, ← hw,
    add_sub_cancel_right]
  rfl

/-- The names of the days and of the months have three letters. -/
theorem length_names : (∀ w < 7, (dayOfWeek.getD w []).length = 3)
    ∧ ∀ m < 12, (month.getD m []).length = 3 := by
  decide +kernel

theorem Tm.length_text {tm : Tm} (h : tm.InRange) : tm.text.length = 29 := by
  have hwday : tm.wday.toNat < 7 := by
    have := h.wday
    omega
  have hmon : tm.mon.toNat < 12 := by
    have := h.mon
    omega
  rw [Tm.text_eq]
  simp only [List.length_append, List.length_cons, List.length_nil,
    length_writeUint, length_names.1 _ hwday, length_names.2 _ hmon]

/-- A number has no byte that ends a string. -/
theorem zero_notMem_writeUint (n k : ℕ) : 0 ∉ writeUint n k := by
  induction k generalizing n with
  | zero => exact List.not_mem_nil
  | succ k ih =>
    rw [writeUint, List.mem_append, List.mem_singleton, not_or]
    refine ⟨ih (n / 10), fun hzero => ?_⟩
    have hdigit := (digit_facts (n % 10) (Nat.mod_lt _ (by decide))).1
    rw [← hzero] at hdigit
    exact absurd hdigit (by decide)

theorem zero_notMem_names : (∀ w < 7, 0 ∉ dayOfWeek.getD w [])
    ∧ ∀ m < 12, 0 ∉ month.getD m [] := by
  decide +kernel

/-- The text of a time is a string of C. -/
theorem Tm.cStr_text {tm : Tm} (h : tm.InRange) : cStr tm.text = tm.text := by
  have hwday : tm.wday.toNat < 7 := by
    have := h.wday
    omega
  have hmon : tm.mon.toNat < 12 := by
    have := h.mon
    omega
  have hzero : 0 ∉ tm.text := by
    rw [Tm.text_eq]
    simp [zero_notMem_writeUint, zero_notMem_names.1 _ hwday,
      zero_notMem_names.2 _ hmon, -List.getD_eq_getElem?_getD]
  refine List.takeWhile_eq_self_iff.mpr fun c hc => ?_
  rw [decide_eq_true_eq]
  rintro rfl
  exact hzero hc

/-! ## The days are counted -/

/-- The leap years up to the year before, in the arithmetic of C. -/
def leapYears (y : ℤ) : ℤ :=
  (y - 1).tdiv 4 - (y - 1).tdiv 100 + (y - 1).tdiv 400

theorem leapYears_eq {y : ℤ} (h : 1 ≤ y) : leapYears y = leapsBefore y := by
  have hpos : 0 ≤ y - 1 := by omega
  rw [leapYears, leapsBefore, Int.tdiv_eq_ediv_of_nonneg hpos,
    Int.tdiv_eq_ediv_of_nonneg hpos, Int.tdiv_eq_ediv_of_nonneg hpos]

/-- There are not many of them up to the year 9999. -/
theorem leapYears_bound {y : ℤ} (hlow : 0 ≤ y) (hhigh : y ≤ 9999) :
    0 ≤ leapYears y ∧ leapYears y ≤ 2424 := by
  rcases hlow.eq_or_lt with rfl | hpos
  · decide
  · rw [leapYears_eq hpos, leapsBefore]
    omega

theorem countLeapYear_ok {y : ℤ} (hlow : 0 ≤ y) (hhigh : y ≤ 9999) :
    countLeapYear y = .ok (leapYears y) := by
  have hbound : 0 ≤ (y - 1).tdiv 4 - (y - 1).tdiv 100
      ∧ (y - 1).tdiv 4 - (y - 1).tdiv 100 ≤ 2499 := by
    rcases hlow.eq_or_lt with rfl | hpos
    · decide
    · have hnonneg : 0 ≤ y - 1 := by omega
      rw [Int.tdiv_eq_ediv_of_nonneg hnonneg,
        Int.tdiv_eq_ediv_of_nonneg hnonneg]
      omega
  have hleap := leapYears_bound hlow hhigh
  rw [leapYears] at hleap
  rw [countLeapYear, int32_ok (by omega) (by omega), Except.ok_bind,
    int32_ok (by omega) (by omega), Except.ok_bind,
    int32_ok (by omega) (by omega), leapYears]

theorem isLeapYear_iff {y : ℤ} (h : 0 ≤ y) : isLeapYear y = true ↔ IsLeap y := by
  rw [isLeapYear, Int.tmod_eq_emod_of_nonneg h, Int.tmod_eq_emod_of_nonneg h,
    Int.tmod_eq_emod_of_nonneg h, IsLeap]
  simp only [Bool.and_eq_true, Bool.or_eq_true, beq_iff_eq, bne_iff_ne]

/-- **The table of the months**, and the day more from March on. -/
theorem daysum_eq (y : ℤ) {m : ℕ} (hm : m < 12) :
    daysum.getD m 0 + (if 2 ≤ m ∧ IsLeap y then 1 else 0)
      = (monthStart y m : ℤ) := by
  interval_cases m
  all_goals
    simp only [daysum, monthStart, monthLength]
    split_ifs
  all_goals simp_all

/-- What `parse_http_date` counts. -/
def Tm.days (tm : Tm) : ℤ :=
  (tm.year - 70) * 365 + (leapYears (tm.year + 1900) - leapYears 1970)
    + daysum.getD tm.mon.toNat 0 + tm.mday - 1
    + if 2 ≤ tm.mon ∧ isLeapYear (tm.year + 1900) then 1 else 0

theorem daysum_bound : ∀ m < 12,
    0 ≤ daysum.getD m 0 ∧ daysum.getD m 0 ≤ 334 := by
  decide

theorem march_bound (c : Prop) [Decidable c] :
    0 ≤ (if c then 1 else 0 : ℤ) ∧ (if c then 1 else 0 : ℤ) ≤ 1 := by
  split_ifs <;> decide

theorem march_ok {c : Prop} [Decidable c] {days : ℤ} (hlow : -2 ^ 31 ≤ days)
    (hhigh : days < 2 ^ 31 - 1) :
    (if c then int32 (days + 1) else .ok days)
      = .ok (days + if c then 1 else 0) := by
  split_ifs
  · exact int32_ok (by omega) (by omega)
  · rw [add_zero]

/-- **No step overflows**, whatever `strptime` has read. -/
theorem Tm.toTime_eq {tm : Tm} (h : tm.InRange) :
    tm.toTime = .ok (tm.days * 86400 + tm.hour * 3600 + tm.min * 60 + tm.sec) := by
  obtain ⟨-, hmin, hhour, hmday, hmon, hyear, -⟩ := h
  have hleap := leapYears_bound hyear.1 hyear.2
  have hleap0 : leapYears 1970 = 477 := by decide
  have hsum := daysum_bound tm.mon.toNat (by omega)
  have hmarch := march_bound (tm.mon ≥ 2 ∧ isLeapYear (tm.year + 1900))
  rw [Tm.toTime, int32_ok (by omega) (by omega), Except.ok_bind,
    countLeapYear_ok hyear.1 hyear.2, Except.ok_bind,
    countLeapYear_ok (by decide) (by decide), Except.ok_bind,
    int32_ok (by omega) (by omega), Except.ok_bind,
    int32_ok (by omega) (by omega), Except.ok_bind,
    int32_ok (by omega) (by omega), Except.ok_bind,
    int32_ok (by omega) (by omega), Except.ok_bind,
    int32_ok (by omega) (by omega), Except.ok_bind,
    int32_ok (by omega) (by omega), Except.ok_bind,
    int32_ok (by omega) (by omega), Except.ok_bind,
    march_ok (by omega) (by omega), Except.ok_bind,
    int32_ok (by omega) (by omega), Except.ok_bind,
    int32_ok (by omega) (by omega), Except.ok_bind,
    int32_ok (by omega) (by omega), Except.ok_bind, Tm.days]
  refine congrArg Except.ok ?_
  ring

/-- **`parse_http_date` counts as the calendar does.** -/
theorem Tm.days_eq {tm : Tm} (date : Date) (hyear : tm.year + 1900 = date.year)
    (hmon : tm.mon = date.month) (hmday : tm.mday = date.day)
    (hpos : 1 ≤ date.year) : tm.days = date.serial - yearStart 1970 := by
  have hmonths := daysum_eq date.year date.month_lt
  have hmarch : (2 ≤ tm.mon ∧ isLeapYear date.year = true)
      ↔ 2 ≤ date.month ∧ IsLeap date.year := by
    rw [hmon, isLeapYear_iff (by omega)]
    exact and_congr_left' Nat.ofNat_le_cast
  rw [Tm.days, hyear, if_congr hmarch rfl rfl, hmon, Int.toNat_natCast,
    leapYears_eq hpos, leapYears_eq (by decide), Date.serial, yearStart,
    yearStart, ← hmonths, hmday]
  have hyears : tm.year - 70 = date.year - 1970 := by omega
  rw [hyears]
  ring

/-- **The dates up to the year 9999** fit into the text, and are counted
right. -/
theorem gmtime_of_lt {t : ℤ} (hlow : 0 ≤ t) (hhigh : t < 253402300800) :
    ∃ tm, gmtime t = some tm ∧ tm.InRange ∧ 1 ≤ tm.mday
      ∧ tm.days * 86400 + tm.hour * 3600 + tm.min * 60 + tm.sec = t := by
  obtain ⟨date, hdate⟩ : ∃ date, ofDays epoch (t / 86400) = date := ⟨_, rfl⟩
  have hserial : date.serial = yearStart 1970 + t / 86400 := by
    rw [← hdate, serial_ofDays, epoch, Date.serial_first, monthStart,
      Nat.cast_zero, add_zero]
  have hfirst : yearStart 1970 = 719527 := by decide
  have hend : yearStart 10000 = 3652424 := by decide
  have hge : 1970 ≤ date.year := by
    rw [← Int.not_lt, Date.year_lt_iff]
    omega
  have hlt : date.year < 10000 := by
    rw [Date.year_lt_iff]
    omega
  have hday := date.day_pos
  have hdayle := date.day_le.trans (monthLength_le _ _)
  have hmonth := date.month_lt
  rw [gmtime, hdate, if_pos (by omega)]
  refine ⟨_, rfl, ?_, ?_, ?_⟩
  · constructor <;> dsimp only <;> omega
  · dsimp only
    omega
  · rw [Tm.days_eq date (sub_add_cancel _ _) rfl rfl (by omega),
      hserial]
    dsimp only
    omega

/-! ## Any text may be read -/

end HttpDate
