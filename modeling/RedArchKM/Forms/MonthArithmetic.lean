import RedArchKM.Lib.Calendar

/-!
# Adding months to a date

A calculated form element may add months or years to a date. The server evaluates the expression
with Python's dates, the browser with its own, and both clamp the day to the length of the target
month.

The server tries the day itself and then the days from 28 on, so in a month that is too short it
takes the 28th and not the last day. The browser takes the last day, but a year below 100 stands for
a year of the twentieth century in `Date.UTC`. So the two agree with the calendar exactly if the
target month has the day, or 28 days, and its year is 100 or later (`clampsMonths_iff`).
-/

namespace RedArchKM.Forms.MonthArithmetic

open Lib.Calendar Option

/-! ## Arguments -/

structure Date extends CivilDate where
  year_pos : 1 ≤ year
  year_le : year ≤ 9999

theorem Date.year_nonneg (d : Date) : 0 ≤ d.year := Int.le_trans (by decide) d.year_pos

/-- An evaluated argument of an expression. -/
inductive Value (ν : Type) where
  | date (value : Date)
  | text (value : String)
  | int (value : Int)
  | other (value : ν)

/-- How an evaluator reads arguments that are not of the plain form: dates in other notations,
amounts that are no integers (by their whole part), and units that are no texts. -/
structure Reader (ν δ : Type) where
  dateOf : Value ν → Option δ
  amountOf : Value ν → Option Int
  textOf : Value ν → String

variable {ν δ : Type}

def Reader.amount (reader : Reader ν δ) : Value ν → Option Int
  | .int value => some value
  | value => reader.amountOf value

def Reader.unit (reader : Reader ν δ) : Value ν → String
  | .text value => value
  | value => reader.textOf value

def unitDays : String → Option Int
  | "day" => some 1
  | "week" => some 7
  | _ => none

def monthUnits : String → Option Int
  | "month" => some 1
  | "year" => some 12
  | _ => none

/-! ## The server

An error of the interpreter is `none`: the evaluator turns it into a null. -/

namespace Server

def date (year : Int) (month day : Nat) : Option Date :=
  if valid : (1 ≤ year ∧ year ≤ 9999) ∧ (1 ≤ month ∧ month ≤ 12) ∧
      1 ≤ day ∧ day ≤ daysInMonth (isLeap year) month then
    some ⟨⟨year, month, day, valid.2.1.1, valid.2.1.2, valid.2.2.1, valid.2.2.2⟩,
      valid.1.1, valid.1.2⟩
  else none

def toDate (reader : Reader ν Date) : Value ν → Option Date
  | .date value => some value
  | .text value =>
    match readIso value with
    | some plain => (date plain.year plain.month plain.day).or (reader.dateOf (.text value))
    | none => reader.dateOf (.text value)
  | value => reader.dateOf value

def addMonths (d : Date) (months : Int) : Option Date :=
  let total := d.month - 1 + months
  let year := d.year + total / 12
  let month := (total % 12).toNat + 1
  match [d.day, 28, 29, 30, 31].findSome? fun day => date year month (min day 31) with
  | some result => some result
  | none => date year month 28

def plusDays (d : Date) (days : Int) : Option Date :=
  let result := ofDayNumber (dayNumber d.toCivilDate + days)
  date result.year result.month result.day

def dateAdd (reader : Reader ν Date) : List (Value ν) → Option String
  | base :: amountRaw :: unit :: _ => do
      let d ← toDate reader base
      let n ← reader.amount amountRaw
      match unitDays (reader.unit unit), monthUnits (reader.unit unit) with
      | some days, _ => return isoText (← plusDays d (n * days)).toCivilDate
      | none, some months => return isoText (← addMonths d (n * months)).toCivilDate
      | none, none => none
  | _ => none

end Server

/-! ## The browser

A time is the number of its day, counted from the first day of year 1 as the calendar counts. -/

namespace Client

/-- The day of 1970-01-01. -/
def epoch : Int := 719163

/-- A time that is too far away is no date. -/
def timeClip (number : Int) : Option Int :=
  if number - epoch ≤ 100000000 ∧ epoch - number ≤ 100000000 then some number else none

/-- The year that a year given to `Date.UTC` stands for. -/
def fullYear (year : Int) : Int := if 0 ≤ year ∧ year ≤ 99 then 1900 + year else year

/-- `Date.UTC`, with the months counted from 0; months and days may overflow. -/
def utc (year month day : Int) : Option Int :=
  timeClip (firstOfMonth (fullYear year + month / 12) ((month % 12).toNat + 1) + (day - 1))

def addMonths (d : CivilDate) (months : Int) : Option Int := do
  let year := d.year
  let month := (d.month : Int) - 1 + months
  let targetYear := year + month / 12
  let targetMonth := (month.tmod 12 + 12).tmod 12
  let lastDay ← utc targetYear (targetMonth + 1) 0
  let day := min d.day (ofDayNumber lastDay).day
  utc targetYear targetMonth day

/-- The first ten characters of the time's text. A year of more than four digits, or before year 0,
is written with a sign and six digits. -/
def isoDate (number : Int) : String :=
  let d := ofDayNumber number
  if 0 ≤ d.year ∧ d.year ≤ 9999 then isoText d
  else
    let sign := if d.year < 0 then '-' else '+'
    String.ofList ((sign :: digits 6 d.year.natAbs ++ '-' :: digits 2 d.month).take 10)

def toDate (reader : Reader ν CivilDate) : Value ν → Option CivilDate
  | .date value => some value.toCivilDate
  | .text value => (readIso value).or (reader.dateOf (.text value))
  | value => reader.dateOf value

def dateAdd (reader : Reader ν CivilDate) : List (Value ν) → Option String
  | base :: amountRaw :: unit :: _ => do
      let d ← toDate reader base
      let n ← reader.amount amountRaw
      match unitDays (reader.unit unit), monthUnits (reader.unit unit) with
      | some days, _ => return isoDate (← timeClip (dayNumber d + n * days))
      | none, some months => return isoDate (← addMonths d (n * months))
      | none, none => none
  | _ => none

end Client

/-! ## What is claimed -/

/-- The arguments that stand for a date. -/
def Denotes (base : Value ν) (d : Date) : Prop :=
  base = .date d ∨ base = .text (isoText d.toCivilDate)

/-- Adding the amount and taking it away again leads to the same day of the month. -/
def ReturnsDay (dateAdd : List (Value ν) → Option String) (d : Date) (amount : Int)
    (unit : String) : Prop :=
  ∃ there, dateAdd [.date d, .int amount, .text unit] = some there ∧
    ((dateAdd [.text there, .int (-amount), .text unit]).bind readIso).map CivilDate.day =
      some d.day

/-- What is claimed of adding an amount of a unit, so many months, to a date. -/
structure ClampsMonths (reader : Reader ν Date) (reader' : Reader ν CivilDate) (d : Date)
    (amount : Int) (unit : String) (months : Int) : Prop where
  server : ∀ base, Denotes base d →
    Server.dateAdd reader [base, .int amount, .text unit] = some (isoText (d.plusMonths months))
  client : ∀ base, Denotes base d →
    Client.dateAdd reader' [base, .int amount, .text unit] = some (isoText (d.plusMonths months))
  back : d.day ≤ lengthOfIndex (d.monthIndex + months) →
    ReturnsDay (Server.dateAdd reader) d amount unit ∧
      ReturnsDay (Client.dateAdd reader') d amount unit

/-! ## What both compute -/

variable {year : Int}

theorem Server.date_of_valid {month day : Nat} (range : 1 ≤ year ∧ year ≤ 9999)
    (isMonth : 1 ≤ month ∧ month ≤ 12) (isDay : 1 ≤ day ∧ day ≤ daysInMonth (isLeap year) month) :
    Server.date year month day =
      some ⟨⟨year, month, day, isMonth.1, isMonth.2, isDay.1, isDay.2⟩, range.1, range.2⟩ :=
  dif_pos ⟨range, isMonth, isDay⟩

theorem Server.date_of_long {month day : Nat} (long : ¬day ≤ daysInMonth (isLeap year) month) :
    Server.date year month day = none :=
  dif_neg fun valid => long valid.2.2.2

theorem Server.date_of_out (out : ¬(1 ≤ year ∧ year ≤ 9999)) (month day : Nat) :
    Server.date year month day = none := dif_neg fun valid => out valid.1

theorem Server.addMonths_eq (d : Date) (months : Int) :
    Server.addMonths d months =
      Server.date (yearOfIndex (d.monthIndex + months)) (monthOfIndex (d.monthIndex + months))
        (if d.day ≤ lengthOfIndex (d.monthIndex + months) then d.day else 28) := by
  have first := d.month_pos
  have year : d.year + ((d.month : Int) - 1 + months) / 12 =
      yearOfIndex (d.monthIndex + months) := by
    unfold yearOfIndex CivilDate.monthIndex
    omega
  have month : (((d.month : Int) - 1 + months) % 12).toNat + 1 =
      monthOfIndex (d.monthIndex + months) := by
    unfold monthOfIndex CivilDate.monthIndex
    omega
  have long := daysInMonth_pos (isLeap (yearOfIndex (d.monthIndex + months)))
    (monthOfIndex (d.monthIndex + months))
  have short := Nat.le_trans d.day_le (daysInMonth_le _ _)
  have isMonth := isMonth_monthOfIndex (d.monthIndex + months)
  simp only [Server.addMonths, year, month, List.findSome?_cons, Nat.min_eq_left short]
  by_cases range : 1 ≤ yearOfIndex (d.monthIndex + months) ∧
      yearOfIndex (d.monthIndex + months) ≤ 9999
  · by_cases fits : d.day ≤ lengthOfIndex (d.monthIndex + months)
    · rw [if_pos fits, Server.date_of_valid range isMonth ⟨d.day_pos, fits⟩]
    · have fallback : min 28 31 = 28 := rfl
      rw [if_neg fits, Server.date_of_long fits, fallback,
        Server.date_of_valid range isMonth ⟨by decide, long⟩]
  · simp only [Server.date_of_out range]
    rfl

theorem Client.timeClip_dayNumber {date : CivilDate} (lower : 1 ≤ date.year)
    (upper : date.year ≤ 9999) : Client.timeClip (dayNumber date) = some (dayNumber date) := by
  obtain ⟨after, before⟩ := dayNumber_bounds date
  have first := daysBeforeYear_mono lower
  have last := daysBeforeYear_mono (Int.add_le_add_right upper 1)
  have start : daysBeforeYear 1 = 0 := by decide
  have stop : daysBeforeYear (9999 + 1) = 3652059 := by decide
  refine if_pos ?_
  unfold Client.epoch
  omega

theorem Client.isoDate_dayNumber {date : CivilDate} (lower : 0 ≤ date.year)
    (upper : date.year ≤ 9999) : Client.isoDate (dayNumber date) = isoText date := by
  rw [Client.isoDate, ofDayNumber_dayNumber]
  exact if_pos ⟨lower, upper⟩

theorem Client.tmod_tmod (month : Int) : (month.tmod 12 + 12).tmod 12 = month % 12 := by
  have lower : 0 ≤ month.tmod 12 + 12 := by
    rw [Int.tmod_eq_emod]
    split <;> omega
  rw [Int.tmod_eq_emod_of_nonneg lower, Int.tmod_eq_emod]
  split <;> omega

theorem Client.utc_lastDay {month : Nat} (isMonth : 1 ≤ month ∧ month ≤ 12)
    (lower : 1 ≤ Client.fullYear year) (upper : Client.fullYear year ≤ 9999) :
    (Client.utc year month 0).map (fun number => (ofDayNumber number).day) =
      some (daysInMonth (isLeap (Client.fullYear year)) month) := by
  let last := clamped (Client.fullYear year) month 31 isMonth (by decide)
  have isLast : last.day = daysInMonth (isLeap last.year) last.month :=
    Nat.min_eq_right (daysInMonth_le _ _)
  have index : last.monthIndex + 1 = Client.fullYear year * 12 + month := by
    simp only [CivilDate.monthIndex, last, clamped]
    omega
  have next := dayNumber_lastOfMonth isLast
  rw [index] at next
  have years : yearOfIndex (Client.fullYear year * 12 + month) =
      Client.fullYear year + month / 12 := by
    unfold yearOfIndex
    omega
  have months : monthOfIndex (Client.fullYear year * 12 + month) =
      ((month : Int) % 12).toNat + 1 := by
    unfold monthOfIndex
    omega
  rw [years, months] at next
  rw [Client.utc, ← next, Int.zero_sub, ← Int.sub_eq_add_neg, Int.add_sub_cancel,
    Client.timeClip_dayNumber lower upper, map_some, ofDayNumber_dayNumber, isLast]
  rfl

theorem Client.utc_date {date : CivilDate} (inYear : Client.fullYear year = date.year) :
    Client.utc year (date.month - 1) date.day = Client.timeClip (dayNumber date) := by
  have lower := date.month_pos
  have upper := date.month_le
  have years : date.year + ((date.month : Int) - 1) / 12 = date.year := by omega
  have months : (((date.month : Int) - 1) % 12).toNat + 1 = date.month := by omega
  rw [Client.utc, inYear, years, months, dayNumber]

/-- The browser takes the day, or the last day of the month, in the year that the target year stands
for. -/
theorem Client.addMonths_eq (d : CivilDate) (months : Int)
    (lower : 1 ≤ Client.fullYear (yearOfIndex (d.monthIndex + months)))
    (upper : Client.fullYear (yearOfIndex (d.monthIndex + months)) ≤ 9999) :
    Client.addMonths d months =
      some (dayNumber (clamped (Client.fullYear (yearOfIndex (d.monthIndex + months)))
        (monthOfIndex (d.monthIndex + months)) d.day
        (isMonth_monthOfIndex _) d.day_pos)) := by
  generalize isTarget : clamped _ _ _ _ _ = target
  have first := d.month_pos
  have year : d.year + ((d.month : Int) - 1 + months) / 12 =
      yearOfIndex (d.monthIndex + months) := by
    unfold yearOfIndex CivilDate.monthIndex
    omega
  have month : (((d.month : Int) - 1 + months).tmod 12 + 12).tmod 12 =
      (monthOfIndex (d.monthIndex + months) : Int) - 1 := by
    rw [Client.tmod_tmod]
    unfold monthOfIndex CivilDate.monthIndex
    omega
  obtain ⟨last, isLast, lastDay⟩ := map_eq_some_iff.mp
    (Client.utc_lastDay (isMonth_monthOfIndex (d.monthIndex + months)) lower upper)
  have day : min d.day (ofDayNumber last).day = target.day := by
    rw [← isTarget, lastDay]
    rfl
  have targetMonth : monthOfIndex (d.monthIndex + months) = target.month := by rw [← isTarget]; rfl
  have targetYear : Client.fullYear (yearOfIndex (d.monthIndex + months)) = target.year := by
    rw [← isTarget]
    rfl
  simp only [Client.addMonths, year, month, Int.sub_add_cancel, isLast, bind_eq_bind,
    bind_some, day]
  rw [targetMonth, Client.utc_date targetYear]
  exact Client.timeClip_dayNumber (targetYear ▸ lower) (targetYear ▸ upper)

variable {base : Value ν} {reader : Reader ν CivilDate}

theorem Server.toDate_of_denotes {reader : Reader ν Date} {d : Date} (denotes : Denotes base d) :
    Server.toDate reader base = some d := by
  rcases denotes with rfl | rfl
  · rfl
  · rw [Server.toDate, readIso_isoText d.toCivilDate d.year_nonneg d.year_le]
    dsimp only
    rw [Server.date_of_valid ⟨d.year_pos, d.year_le⟩ ⟨d.month_pos, d.month_le⟩
      ⟨d.day_pos, d.day_le⟩]
    rfl

theorem Client.toDate_isoText {d : CivilDate} (lower : 0 ≤ d.year) (upper : d.year ≤ 9999) :
    Client.toDate reader (.text (isoText d)) = some d := by
  rw [Client.toDate, readIso_isoText d lower upper]
  rfl

theorem Client.toDate_of_denotes {d : Date} (denotes : Denotes base d) :
    Client.toDate reader base = some d.toCivilDate := by
  rcases denotes with rfl | rfl
  · rfl
  · exact Client.toDate_isoText d.year_nonneg d.year_le

theorem unitDays_of_monthUnits {unit : String} {factor : Int}
    (isUnit : monthUnits unit = some factor) : unitDays unit = none := by
  unfold monthUnits at isUnit
  split at isUnit
  · rfl
  · rfl
  · cases isUnit

theorem Server.dateAdd_months {reader : Reader ν Date} {d : Date} {unit : String} {factor : Int}
    (isUnit : monthUnits unit = some factor) (isBase : Server.toDate reader base = some d)
    (amount : Int) :
    Server.dateAdd reader [base, .int amount, .text unit] =
      (Server.addMonths d (amount * factor)).map fun result => isoText result.toCivilDate := by
  simp only [Server.dateAdd, isBase, Reader.amount, Reader.unit, isUnit,
    unitDays_of_monthUnits isUnit, bind_eq_bind, bind_some]
  cases Server.addMonths d (amount * factor) <;> rfl

theorem Client.dateAdd_months {d : CivilDate} {unit : String} {factor : Int}
    (isUnit : monthUnits unit = some factor) (isBase : Client.toDate reader base = some d)
    (amount : Int) :
    Client.dateAdd reader [base, .int amount, .text unit] =
      (Client.addMonths d (amount * factor)).map Client.isoDate := by
  simp only [Client.dateAdd, isBase, Reader.amount, Reader.unit, isUnit,
    unitDays_of_monthUnits isUnit, bind_eq_bind, bind_some]
  cases Client.addMonths d (amount * factor) <;> rfl

theorem Client.fullYear_range (range : 1 ≤ year ∧ year ≤ 9999) :
    1 ≤ Client.fullYear year ∧ Client.fullYear year ≤ 9999 := by
  unfold Client.fullYear
  split <;> omega

theorem Client.isLeap_fullYear (lower : 1 ≤ year) :
    isLeap (Client.fullYear year) = isLeap year := by
  unfold Client.fullYear
  split
  · have four : (1900 + year) % 4 = year % 4 := by omega
    have century : (1900 + year) % 100 ≠ 0 := by omega
    have century' : year % 100 ≠ 0 := by omega
    simp [isLeap, four, century, century']
  · rfl

/-! ## When both are right -/

section Target

variable {d : Date} {months : Int}
  (range : 1 ≤ yearOfIndex (d.monthIndex + months) ∧ yearOfIndex (d.monthIndex + months) ≤ 9999)
include range

theorem Server.addMonths_iff :
    (Server.addMonths d months).map (fun result => isoText result.toCivilDate) =
        some (isoText (d.plusMonths months)) ↔
      d.day ≤ lengthOfIndex (d.monthIndex + months) ∨
        lengthOfIndex (d.monthIndex + months) = 28 := by
  have isMonth := isMonth_monthOfIndex (d.monthIndex + months)
  have long := daysInMonth_pos (isLeap (yearOfIndex (d.monthIndex + months)))
    (monthOfIndex (d.monthIndex + months))
  have lower : 0 ≤ yearOfIndex (d.monthIndex + months) := Int.le_trans (by decide) range.1
  have days : (d.plusMonths months).day = min d.day (lengthOfIndex (d.monthIndex + months)) := rfl
  rw [Server.addMonths_eq]
  by_cases fits : d.day ≤ lengthOfIndex (d.monthIndex + months)
  · refine iff_of_true ?_ (.inl fits)
    rw [if_pos fits, Server.date_of_valid range isMonth ⟨d.day_pos, fits⟩, map_some]
    refine congrArg (fun date => some (isoText date)) (CivilDate.ext rfl rfl ?_)
    exact (Nat.min_eq_left fits).symm
  · rw [if_neg fits, Server.date_of_valid range isMonth ⟨by decide, long⟩, map_some,
      or_iff_right fits]
    have shorter : min d.day (lengthOfIndex (d.monthIndex + months)) =
        lengthOfIndex (d.monthIndex + months) := Nat.min_eq_right (Nat.le_of_not_le fits)
    constructor
    · intro same
      have dates := isoText_injective lower range.2 lower range.2 (some.inj same)
      rw [← shorter, ← days, ← dates]
    · intro short
      refine congrArg (fun date => some (isoText date)) (CivilDate.ext rfl rfl ?_)
      rw [days, shorter, short]

theorem Client.addMonths_iff :
    (Client.addMonths d.toCivilDate months).map Client.isoDate =
        some (isoText (d.plusMonths months)) ↔ 100 ≤ yearOfIndex (d.monthIndex + months) := by
  obtain ⟨lower, upper⟩ := Client.fullYear_range range
  rw [Client.addMonths_eq d.toCivilDate months lower upper, map_some,
    Client.isoDate_dayNumber (Int.le_trans (by decide) lower) upper]
  by_cases late : 100 ≤ yearOfIndex (d.monthIndex + months)
  · refine iff_of_true ?_ late
    have same : Client.fullYear (yearOfIndex (d.monthIndex + months)) =
        yearOfIndex (d.monthIndex + months) := if_neg (by omega)
    simp only [same]
    rfl
  · refine iff_of_false (fun same => ?_) late
    have dates := isoText_injective (Int.le_trans (by decide) lower) upper
      (Int.le_trans (by decide) range.1) range.2 (some.inj same)
    have years : Client.fullYear (yearOfIndex (d.monthIndex + months)) =
        yearOfIndex (d.monthIndex + months) := congrArg CivilDate.year dates
    have twentieth : Client.fullYear (yearOfIndex (d.monthIndex + months)) =
        1900 + yearOfIndex (d.monthIndex + months) := if_pos ⟨by omega, by omega⟩
    omega

theorem Server.returnsDay {reader : Reader ν Date} {amount factor : Int} {unit : String}
    (isUnit : monthUnits unit = some factor) (isMonths : amount * factor = months)
    (fits : d.day ≤ lengthOfIndex (d.monthIndex + months)) :
    ReturnsDay (Server.dateAdd reader) d amount unit := by
  have there := Server.addMonths_iff range |>.mpr (.inl fits)
  let result : Date := ⟨d.plusMonths months, range.1, range.2⟩
  have kept : result.day = d.day := Nat.min_eq_left fits
  have index : result.monthIndex + -amount * factor = d.monthIndex := by
    rw [Int.neg_mul, isMonths]
    exact monthIndex_back d.toCivilDate months
  refine ⟨isoText result.toCivilDate, ?_, ?_⟩
  · rw [Server.dateAdd_months isUnit (Server.toDate_of_denotes (.inl rfl)), isMonths, there]
  · have fits' : result.day ≤ lengthOfIndex d.monthIndex := by
      rw [kept, lengthOfIndex_monthIndex]
      exact d.day_le
    rw [Server.dateAdd_months isUnit (Server.toDate_of_denotes (.inr rfl)), Server.addMonths_eq,
      index, if_pos fits', yearOfIndex_monthIndex, monthOfIndex_monthIndex, kept,
      Server.date_of_valid ⟨d.year_pos, d.year_le⟩ ⟨d.month_pos, d.month_le⟩ ⟨d.day_pos, d.day_le⟩]
    simp only [map_some, bind_some]
    rw [readIso_isoText _ d.year_nonneg d.year_le]
    rfl

theorem Client.returnsDay {reader : Reader ν CivilDate} {amount factor : Int} {unit : String}
    (isUnit : monthUnits unit = some factor) (isMonths : amount * factor = months)
    (late : 100 ≤ yearOfIndex (d.monthIndex + months))
    (fits : d.day ≤ lengthOfIndex (d.monthIndex + months)) :
    ReturnsDay (Client.dateAdd reader) d amount unit := by
  have there := Client.addMonths_iff range |>.mpr late
  have kept : (d.plusMonths months).day = d.day := Nat.min_eq_left fits
  have index : (d.plusMonths months).monthIndex + -amount * factor = d.monthIndex := by
    rw [Int.neg_mul, isMonths]
    exact monthIndex_back d.toCivilDate months
  obtain ⟨lower, upper⟩ := Client.fullYear_range ⟨d.year_pos, d.year_le⟩
  refine ⟨isoText (d.plusMonths months), ?_, ?_⟩
  · rw [Client.dateAdd_months isUnit (Client.toDate_of_denotes (.inl rfl)), isMonths, there]
  · rw [Client.dateAdd_months isUnit
        (Client.toDate_isoText (Int.le_trans (by decide) range.1) range.2),
      Client.addMonths_eq]
    all_goals rw [index]
    all_goals rw [yearOfIndex_monthIndex]
    · rw [map_some, Client.isoDate_dayNumber (Int.le_trans (by decide) lower) upper,
        bind_some, readIso_isoText _ (Int.le_trans (by decide) lower) upper, map_some]
      refine congrArg some ?_
      show min (d.plusMonths months).day _ = d.day
      rw [kept, Client.isLeap_fullYear d.year_pos, monthOfIndex_monthIndex]
      exact Nat.min_eq_left d.day_le
    · exact lower
    · exact upper

/-- **Adding months clamps the day to the end of the month, on the server and in the browser,
exactly if the target month has the day or 28 days, and its year is 100 or later.** -/
theorem clampsMonths_iff {reader : Reader ν Date} {reader' : Reader ν CivilDate}
    {amount factor : Int} {unit : String} (isUnit : monthUnits unit = some factor)
    (isMonths : amount * factor = months) :
    ClampsMonths reader reader' d amount unit months ↔
      (d.day ≤ lengthOfIndex (d.monthIndex + months) ∨
        lengthOfIndex (d.monthIndex + months) = 28) ∧
      100 ≤ yearOfIndex (d.monthIndex + months) := by
  constructor
  · intro clamps
    have server := clamps.server (.date d) (.inl rfl)
    have client := clamps.client (.date d) (.inl rfl)
    rw [Server.dateAdd_months isUnit (Server.toDate_of_denotes (.inl rfl)), isMonths] at server
    rw [Client.dateAdd_months isUnit (Client.toDate_of_denotes (.inl rfl)), isMonths] at client
    exact ⟨(Server.addMonths_iff range).mp server, (Client.addMonths_iff range).mp client⟩
  · rintro ⟨day, late⟩
    exact {
      server := fun base denotes => by
        rw [Server.dateAdd_months isUnit (Server.toDate_of_denotes denotes), isMonths]
        exact (Server.addMonths_iff range).mpr day
      client := fun base denotes => by
        rw [Client.dateAdd_months isUnit (Client.toDate_of_denotes denotes), isMonths]
        exact (Client.addMonths_iff range).mpr late
      back := fun fits => ⟨Server.returnsDay range isUnit isMonths fits,
        Client.returnsDay range isUnit isMonths late fits⟩ }

end Target

/-! ## The last day of January -/

def endOfJanuary : Date := ⟨⟨2026, 1, 31, by decide, by decide, by decide, by decide⟩, by decide,
  by decide⟩

/-- Readers that read plain arguments only. -/
def plainReader (δ : Type) : Reader Empty δ where
  dateOf _ := none
  amountOf _ := none
  textOf _ := ""

/-- One month later is the last day of February. -/
theorem clampsMonths_february :
    ClampsMonths (plainReader Date) (plainReader CivilDate) endOfJanuary 1 "month" 1 := by
  have range : 1 ≤ yearOfIndex (endOfJanuary.monthIndex + 1) ∧
      yearOfIndex (endOfJanuary.monthIndex + 1) ≤ 9999 := by decide
  have isUnit : monthUnits "month" = some 1 := by decide
  exact (clampsMonths_iff range isUnit (by decide)).mpr (by decide)

/-- Three months later the server takes the 28th of April, and April has 30 days. -/
theorem not_clampsMonths_april :
    ¬ClampsMonths (plainReader Date) (plainReader CivilDate) endOfJanuary 3 "month" 3 := by
  intro clamps
  have server := clamps.server (.date endOfJanuary) (.inl rfl)
  revert server
  decide

end RedArchKM.Forms.MonthArithmetic
