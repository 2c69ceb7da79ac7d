import Mathlib.Algebra.GroupWithZero.Nat
import Mathlib.Data.List.Basic
import Mathlib.Data.Int.Init
import Mathlib.Tactic.Ext

/-!
# The calendar

Dates of the Gregorian calendar, extended to all years, and their numbers: the first day of year 1
has number 1. Every number is the number of one date (`dayNumber_ofDayNumber`,
`ofDayNumber_dayNumber`).

The months are counted through the years, so a number of months away is another count
(`monthIndex`). The last day of a month comes before the first day of the next one
(`dayNumber_lastOfMonth`).

A date of a year with at most four digits is written as `YYYY-MM-DD`, and read back
(`readIso_isoText`).
-/

namespace RedArchKM.Lib.Calendar

open List

def isLeap (year : Int) : Bool := year % 4 = 0 ∧ (year % 100 ≠ 0 ∨ year % 400 = 0)

def daysInMonth (leap : Bool) : Nat → Nat
  | 2 => if leap then 29 else 28
  | 4 | 6 | 9 | 11 => 30
  | _ => 31

theorem daysInMonth_pos (leap : Bool) (month : Nat) : 28 ≤ daysInMonth leap month := by
  unfold daysInMonth
  split
  · split <;> decide
  all_goals decide

theorem daysInMonth_le (leap : Bool) (month : Nat) : daysInMonth leap month ≤ 31 := by
  unfold daysInMonth
  split
  · split <;> decide
  all_goals decide

/-- A date: the month is one of the year's, the day one of the month's. -/
@[ext]
structure CivilDate where
  year : Int
  month : Nat
  day : Nat
  month_pos : 1 ≤ month
  month_le : month ≤ 12
  day_pos : 1 ≤ day
  day_le : day ≤ daysInMonth (isLeap year) month

/-! ## Numbering the days -/

def daysBeforeYear (year : Int) : Int :=
  (year - 1) * 365 + (year - 1) / 4 - (year - 1) / 100 + (year - 1) / 400

def daysBeforeMonth (leap : Bool) (month : Nat) : Nat :=
  ((List.range' 1 (month - 1)).map (daysInMonth leap)).sum

def daysInYear (leap : Bool) : Nat := daysBeforeMonth leap 13

def firstOfMonth (year : Int) (month : Nat) : Int :=
  daysBeforeYear year + daysBeforeMonth (isLeap year) month + 1

def dayNumber (date : CivilDate) : Int := firstOfMonth date.year date.month + (date.day - 1)

def yearOf (number : Int) : Int :=
  let guess := (number - 1) * 400 / 146097 + 1
  if number ≤ daysBeforeYear guess then guess - 1
  else if daysBeforeYear (guess + 1) < number then guess + 1
  else guess

/-- The month of a day of the year: one more than the months that have ended before it. -/
def monthOf (leap : Bool) (day : Nat) : Nat :=
  1 + (List.range' 2 11).countP fun month => daysBeforeMonth leap month < day

theorem daysBeforeYear_succ (year : Int) :
    daysBeforeYear (year + 1) = daysBeforeYear year + daysInYear (isLeap year) := by
  have length : (daysInYear (isLeap year) : Int) = if isLeap year then 366 else 365 := by
    cases isLeap year <;> rfl
  rw [length]
  unfold daysBeforeYear isLeap
  by_cases four : year % 4 = 0
  · by_cases century : year % 100 = 0
    · by_cases cycle : year % 400 = 0 <;> simp [four, century, cycle] <;> omega
    · simp [four, century]
      omega
  · simp [four]
    omega

theorem daysBeforeYear_mono {year later : Int} (le : year ≤ later) :
    daysBeforeYear year ≤ daysBeforeYear later := by
  unfold daysBeforeYear
  omega

theorem guess_spec (number : Int) :
    daysBeforeYear ((number - 1) * 400 / 146097 + 1 - 1) < number ∧
      number ≤ daysBeforeYear ((number - 1) * 400 / 146097 + 1 + 1 + 1) := by
  unfold daysBeforeYear
  omega

theorem yearOf_spec (number : Int) :
    daysBeforeYear (yearOf number) < number ∧ number ≤ daysBeforeYear (yearOf number + 1) := by
  obtain ⟨lower, upper⟩ := guess_spec number
  unfold yearOf
  dsimp only
  split
  · rename_i early
    rw [Int.sub_add_cancel]
    exact ⟨lower, early⟩
  · split
    · rename_i late
      exact ⟨late, upper⟩
    · constructor <;> omega

theorem monthOf_spec (leap : Bool) : ∀ day < 367, 0 < day → day ≤ daysInYear leap →
    monthOf leap day ≤ 12 ∧ daysBeforeMonth leap (monthOf leap day) < day ∧
      day ≤ daysBeforeMonth leap (monthOf leap day) + daysInMonth leap (monthOf leap day) := by
  revert leap
  decide +kernel

theorem daysInYear_lt (leap : Bool) : daysInYear leap < 367 := by cases leap <;> decide

theorem daysBeforeMonth_succ (leap : Bool) {month : Nat} (positive : 1 ≤ month) :
    daysBeforeMonth leap (month + 1) = daysBeforeMonth leap month + daysInMonth leap month := by
  obtain ⟨month, rfl⟩ := Nat.exists_eq_add_of_le positive
  simp only [daysBeforeMonth, Nat.add_sub_cancel, Nat.add_sub_cancel_left]
  rw [Nat.add_comm 1 month, range'_1_concat]
  simp [Nat.add_comm]

theorem daysBeforeMonth_mono (leap : Bool) {month later : Nat} (positive : 1 ≤ month)
    (le : month ≤ later) : daysBeforeMonth leap month ≤ daysBeforeMonth leap later := by
  induction le with
  | refl => exact Nat.le_refl _
  | step le ih =>
    rw [daysBeforeMonth_succ leap (Nat.le_trans positive le)]
    exact Nat.le_add_right_of_le ih

def ofDayNumber (number : Int) : CivilDate :=
  have inYear : (number - daysBeforeYear (yearOf number)).toNat < 367 ∧
      0 < (number - daysBeforeYear (yearOf number)).toNat ∧
      (number - daysBeforeYear (yearOf number)).toNat ≤ daysInYear (isLeap (yearOf number)) := by
    obtain ⟨lower, upper⟩ := yearOf_spec number
    rw [daysBeforeYear_succ] at upper
    have short := daysInYear_lt (isLeap (yearOf number))
    omega
  have spec := monthOf_spec (isLeap (yearOf number)) _ inYear.1 inYear.2.1 inYear.2.2
  { year := yearOf number
    month := monthOf (isLeap (yearOf number)) (number - daysBeforeYear (yearOf number)).toNat
    day := (number - daysBeforeYear (yearOf number)).toNat -
      daysBeforeMonth (isLeap (yearOf number))
        (monthOf (isLeap (yearOf number)) (number - daysBeforeYear (yearOf number)).toNat)
    month_pos := Nat.le_add_right 1 _
    month_le := spec.1
    day_pos := Nat.sub_pos_of_lt spec.2.1
    day_le := Nat.sub_le_iff_le_add'.mpr spec.2.2 }

theorem dayNumber_ofDayNumber (number : Int) : dayNumber (ofDayNumber number) = number := by
  have upper : 0 < (ofDayNumber number).day := (ofDayNumber number).day_pos
  simp only [dayNumber, firstOfMonth, ofDayNumber] at upper ⊢
  omega

theorem dayNumber_eq (date : CivilDate) :
    dayNumber date = daysBeforeYear date.year +
      (daysBeforeMonth (isLeap date.year) date.month + date.day : Nat) := by
  rw [dayNumber, firstOfMonth]
  omega

theorem dayNumber_bounds (date : CivilDate) :
    daysBeforeYear date.year < dayNumber date ∧
      dayNumber date ≤ daysBeforeYear (date.year + 1) := by
  have ends : daysBeforeMonth (isLeap date.year) date.month + date.day ≤
      daysInYear (isLeap date.year) := by
    refine Nat.le_trans (Nat.add_le_add_left date.day_le _) ?_
    rw [← daysBeforeMonth_succ _ date.month_pos]
    exact daysBeforeMonth_mono _ (Nat.le_add_left 1 _) (Nat.succ_le_succ date.month_le)
  have positive := date.day_pos
  rw [dayNumber_eq, daysBeforeYear_succ]
  omega

theorem dayNumber_injective {date other : CivilDate} (same : dayNumber date = dayNumber other) :
    date = other := by
  have years : date.year = other.year := by
    obtain ⟨lower, upper⟩ := dayNumber_bounds date
    obtain ⟨lower', upper'⟩ := dayNumber_bounds other
    rcases Int.lt_trichotomy date.year other.year with before | same | after
    · have apart := daysBeforeYear_mono (Int.add_one_le_of_lt before)
      omega
    · exact same
    · have apart := daysBeforeYear_mono (Int.add_one_le_of_lt after)
      omega
  rw [dayNumber_eq, dayNumber_eq, years] at same
  have days : daysBeforeMonth (isLeap other.year) date.month + date.day =
      daysBeforeMonth (isLeap other.year) other.month + other.day := by omega
  have months : date.month = other.month := by
    have bound := years ▸ date.day_le
    have bound' := other.day_le
    have positive := date.day_pos
    have positive' := other.day_pos
    rcases Nat.lt_trichotomy date.month other.month with before | same | after
    · have apart := daysBeforeMonth_mono (isLeap other.year) (Nat.le_add_left 1 _) before
      rw [daysBeforeMonth_succ _ date.month_pos] at apart
      omega
    · exact same
    · have apart := daysBeforeMonth_mono (isLeap other.year) (Nat.le_add_left 1 _) after
      rw [daysBeforeMonth_succ _ other.month_pos] at apart
      omega
  rw [months] at days
  exact CivilDate.ext years months (Nat.add_left_cancel days)

theorem ofDayNumber_dayNumber (date : CivilDate) : ofDayNumber (dayNumber date) = date :=
  dayNumber_injective (dayNumber_ofDayNumber _)

/-! ## Counting the months -/

/-- The number of a month, counted through the years. -/
def CivilDate.monthIndex (date : CivilDate) : Int := date.year * 12 + (date.month - 1)

def yearOfIndex (index : Int) : Int := index / 12

def monthOfIndex (index : Int) : Nat := (index % 12).toNat + 1

def lengthOfIndex (index : Int) : Nat :=
  daysInMonth (isLeap (yearOfIndex index)) (monthOfIndex index)

theorem isMonth_monthOfIndex (index : Int) : 1 ≤ monthOfIndex index ∧ monthOfIndex index ≤ 12 := by
  unfold monthOfIndex
  omega

def clamped (year : Int) (month day : Nat) (isMonth : 1 ≤ month ∧ month ≤ 12) (positive : 1 ≤ day) :
    CivilDate where
  year := year
  month := month
  day := min day (daysInMonth (isLeap year) month)
  month_pos := isMonth.1
  month_le := isMonth.2
  day_pos := Nat.le_min.mpr ⟨positive, Nat.le_trans (by decide) (daysInMonth_pos _ _)⟩
  day_le := Nat.min_le_right _ _

def CivilDate.plusMonths (date : CivilDate) (months : Int) : CivilDate :=
  clamped (yearOfIndex (date.monthIndex + months)) (monthOfIndex (date.monthIndex + months))
    date.day (isMonth_monthOfIndex _) date.day_pos

section

variable (date : CivilDate)

include date

theorem yearOfIndex_monthIndex : yearOfIndex date.monthIndex = date.year := by
  have lower := date.month_pos
  have upper := date.month_le
  unfold yearOfIndex CivilDate.monthIndex
  omega

theorem monthOfIndex_monthIndex : monthOfIndex date.monthIndex = date.month := by
  have lower := date.month_pos
  have upper := date.month_le
  unfold monthOfIndex CivilDate.monthIndex
  omega

theorem lengthOfIndex_monthIndex :
    lengthOfIndex date.monthIndex = daysInMonth (isLeap date.year) date.month := by
  rw [lengthOfIndex, yearOfIndex_monthIndex, monthOfIndex_monthIndex]

theorem monthIndex_plusMonths (months : Int) :
    (date.plusMonths months).monthIndex = date.monthIndex + months := by
  simp only [CivilDate.monthIndex, CivilDate.plusMonths, clamped, yearOfIndex, monthOfIndex]
  omega

theorem monthIndex_back (months : Int) :
    (date.plusMonths months).monthIndex + -months = date.monthIndex := by
  rw [monthIndex_plusMonths]
  omega

end

theorem dayNumber_lastOfMonth {date : CivilDate}
    (isLast : date.day = daysInMonth (isLeap date.year) date.month) :
    dayNumber date + 1 =
      firstOfMonth (yearOfIndex (date.monthIndex + 1)) (monthOfIndex (date.monthIndex + 1)) := by
  have lower := date.month_pos
  have upper := date.month_le
  rw [dayNumber_eq, isLast, ← daysBeforeMonth_succ _ date.month_pos, firstOfMonth]
  by_cases december : date.month = 12
  · have next : yearOfIndex (date.monthIndex + 1) = date.year + 1 := by
      unfold yearOfIndex CivilDate.monthIndex
      omega
    have first : monthOfIndex (date.monthIndex + 1) = 1 := by
      unfold monthOfIndex CivilDate.monthIndex
      omega
    have start : daysBeforeMonth (isLeap (date.year + 1)) 1 = 0 := rfl
    have ends : date.month + 1 = 13 := by omega
    rw [next, first, ends, daysBeforeYear_succ, daysInYear, start]
    omega
  · have same : yearOfIndex (date.monthIndex + 1) = date.year := by
      unfold yearOfIndex CivilDate.monthIndex
      omega
    have next : monthOfIndex (date.monthIndex + 1) = date.month + 1 := by
      unfold monthOfIndex CivilDate.monthIndex
      omega
    rw [same, next]

/-! ## Texts of dates -/

def digits : Nat → Nat → List Char
  | 0, _ => []
  | width + 1, number => digits width (number / 10) ++ [Char.ofNat (48 + number % 10)]

def digitValue (char : Char) : Option Nat :=
  if 48 ≤ char.toNat ∧ char.toNat ≤ 57 then some (char.toNat - 48) else none

def readDigits (chars : List Char) : Option Nat :=
  chars.foldlM (fun number char => (digitValue char).map fun digit => number * 10 + digit) 0

theorem digitValue_ofNat : ∀ digit < 10, digitValue (Char.ofNat (48 + digit)) = some digit := by
  decide

theorem readDigits_digits (width number : Nat) :
    readDigits (digits width number) = some (number % 10 ^ width) := by
  induction width generalizing number with
  | zero => simp [readDigits, digits, Nat.mod_one]
  | succ width ih =>
    have last := digitValue_ofNat (number % 10) (Nat.mod_lt _ (by decide))
    have first : readDigits (digits width (number / 10)) = _ := ih (number / 10)
    rw [readDigits] at first
    simp only [digits, readDigits, foldlM_append, first, foldlM_cons, last,
      foldlM_nil, Option.map_some, Option.bind_eq_bind, Option.bind_some]
    rw [Option.pure_def, Nat.pow_succ', Nat.mod_mul]
    congr 1
    omega

def ofNumbers (year : Int) (month day : Nat) : Option CivilDate :=
  if valid : (1 ≤ month ∧ month ≤ 12) ∧ 1 ≤ day ∧ day ≤ daysInMonth (isLeap year) month then
    some ⟨year, month, day, valid.1.1, valid.1.2, valid.2.1, valid.2.2⟩
  else none

theorem ofNumbers_self (date : CivilDate) : ofNumbers date.year date.month date.day = some date :=
  dif_pos ⟨⟨date.month_pos, date.month_le⟩, date.day_pos, date.day_le⟩

def isoText (date : CivilDate) : String :=
  String.ofList (digits 4 date.year.toNat ++ '-' :: digits 2 date.month ++ '-' :: digits 2 date.day)

def readIso (text : String) : Option CivilDate :=
  match text.toList with
  | [y₁, y₂, y₃, y₄, '-', m₁, m₂, '-', d₁, d₂] => do
      let year ← readDigits [y₁, y₂, y₃, y₄]
      let month ← readDigits [m₁, m₂]
      let day ← readDigits [d₁, d₂]
      ofNumbers year month day
  | _ => none

/-- **A date is read back from its text.** -/
theorem readIso_isoText (date : CivilDate) (lower : 0 ≤ date.year) (upper : date.year ≤ 9999) :
    readIso (isoText date) = some date := by
  have year : readDigits (digits 4 date.year.toNat) = some date.year.toNat := by
    rw [readDigits_digits, Nat.mod_eq_of_lt (by omega)]
  have month : readDigits (digits 2 date.month) = some date.month := by
    have le := date.month_le
    rw [readDigits_digits, Nat.mod_eq_of_lt (by omega)]
  have day : readDigits (digits 2 date.day) = some date.day := by
    have le := Nat.le_trans date.day_le (daysInMonth_le _ _)
    rw [readDigits_digits, Nat.mod_eq_of_lt (by omega)]
  rw [readIso, isoText, String.toList_ofList]
  simp only [digits, nil_append, cons_append] at year month day ⊢
  rw [year, month, day]
  simp only [Option.bind_eq_bind, Option.bind_some, Int.toNat_of_nonneg lower, ofNumbers_self]

theorem isoText_injective {date other : CivilDate} (lower : 0 ≤ date.year)
    (upper : date.year ≤ 9999) (lower' : 0 ≤ other.year) (upper' : other.year ≤ 9999)
    (same : isoText date = isoText other) : date = other := by
  have read := readIso_isoText date lower upper
  rw [same, readIso_isoText other lower' upper'] at read
  exact (Option.some.inj read).symm

end RedArchKM.Lib.Calendar
