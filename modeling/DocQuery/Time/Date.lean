/-!
# DocQuery.Time.Date — days of the proleptic Gregorian calendar

A date is a year, a month and a day that exist, for the years from -262143 to 262142.  Days are
counted from 1970-01-01 (`Date.dayNumber`), which gives weekdays and the way to and from counts of
seconds; week numbers follow from the day of the year and the weekday.
-/

namespace DocQuery

/-- Whether a year has a 29th of February. -/
def isLeapYear (year : Int) : Bool :=
  year % 4 == 0 && (year % 100 != 0 || year % 400 == 0)

/-- How many days a month has; none if there is no such month. -/
def daysInMonth (year : Int) (month : Nat) : Nat :=
  match month with
  | 1 | 3 | 5 | 7 | 8 | 10 | 12 => 31
  | 4 | 6 | 9 | 11 => 30
  | 2 => if isLeapYear year then 29 else 28
  | _ => 0

/-- A date that exists.  A month without days has no dates, so the bound on the day bounds the month
as well. -/
structure Date where
  year : Int
  month : Nat
  day : Nat
  first_year : -262143 ≤ year
  last_year : year ≤ 262142
  first_day : 1 ≤ day
  last_day : day ≤ daysInMonth year month
deriving DecidableEq

namespace Date

/-- The date of a year, month and day, if it exists. -/
def of? (year : Int) (month day : Nat) : Option Date :=
  if h : -262143 ≤ year ∧ year ≤ 262142 ∧ 1 ≤ day ∧ day ≤ daysInMonth year month then
    some ⟨year, month, day, h.1, h.2.1, h.2.2.1, h.2.2.2⟩
  else none

/-- The first day of the count. -/
def epoch : Date := ⟨1970, 1, 1, by decide, by decide, by decide, by decide⟩

/-- Dates in calendar order. -/
def compare (a b : Date) : Ordering :=
  (Ord.compare a.year b.year).then ((Ord.compare a.month b.month).then (Ord.compare a.day b.day))

/-! ## Counting days

Years are counted from March, so that a leap day is the last one, in cycles of 400 years with 146097
days. -/

/-- The days from 1970-01-01 to a date. -/
def dayNumber (d : Date) : Int :=
  let y : Int := if d.month ≤ 2 then d.year - 1 else d.year
  let cycle := y / 400
  let yearOfCycle := y % 400
  let monthFromMarch : Int := (d.month + 9) % 12
  let dayOfYear := (153 * monthFromMarch + 2) / 5 + d.day - 1
  let dayOfCycle := yearOfCycle * 365 + yearOfCycle / 4 - yearOfCycle / 100 + dayOfYear
  cycle * 146097 + dayOfCycle - 719468

/-- The date so many days after 1970-01-01, if the calendar reaches it. -/
def ofDayNumber? (n : Int) : Option Date :=
  let z := n + 719468
  let cycle := z / 146097
  let dayOfCycle := z % 146097
  let yearOfCycle :=
    (dayOfCycle - dayOfCycle / 1460 + dayOfCycle / 36524 - dayOfCycle / 146096) / 365
  let dayOfYear := dayOfCycle - (365 * yearOfCycle + yearOfCycle / 4 - yearOfCycle / 100)
  let monthFromMarch := (5 * dayOfYear + 2) / 153
  let day := dayOfYear - (153 * monthFromMarch + 2) / 5 + 1
  let month := if monthFromMarch < 10 then monthFromMarch + 3 else monthFromMarch - 9
  let year := yearOfCycle + cycle * 400 + if month ≤ 2 then 1 else 0
  of? year month.toNat day.toNat

/-! ## Days of the year and of the week -/

/-- How many days a year has. -/
def daysInYear (year : Int) : Nat := if isLeapYear year then 366 else 365

/-- The day of the year, from one. -/
def ordinal (d : Date) : Nat :=
  (List.range' 1 (d.month - 1)).foldl (fun days month => days + daysInMonth d.year month) d.day

/-- The month and the day of the month for a day of the year counted from one, looking from `month`
on. -/
def monthAndDay? (year : Int) : (months : Nat) → (month ordinal : Nat) → Option (Nat × Nat)
  | 0, _, _ => none
  | months + 1, month, ordinal =>
    if ordinal ≤ daysInMonth year month then some (month, ordinal)
    else monthAndDay? year months (month + 1) (ordinal - daysInMonth year month)

/-- The date of a day of the year, counted from one. -/
def ofOrdinal? (year : Int) (ordinal : Nat) : Option Date :=
  match monthAndDay? year 12 1 ordinal with
  | some (month, day) => of? year month day
  | none => none

/-- The weekday, from zero for Monday. -/
def weekday (d : Date) : Nat := ((d.dayNumber + 3) % 7).toNat

/-- How many days lie between a weekday and the one before or on it that begins the week. -/
def daysSince (weekday start : Nat) : Nat := (weekday + 7 - start) % 7

/-- The number of the week within the year, where weeks begin on `start` and the days before the
first such day belong to week zero. -/
def weekFrom (start : Nat) (d : Date) : Nat :=
  (d.ordinal + 6 - daysSince d.weekday start) / 7

/-- The date of a weekday in a week of a year, where weeks begin on `start`. -/
def ofWeek? (start : Nat) (year : Int) (week weekday : Nat) : Option Date :=
  match ofOrdinal? year 1 with
  | none => none
  | some newYear =>
    let firstStart : Int := 1 + daysSince start newYear.weekday
    let ordinal : Int := firstStart + (week - 1) * 7 + daysSince weekday start
    if ordinal ≤ 0 then none else ofOrdinal? year ordinal.toNat

/-- The weekday of the first of January of a year, from zero for Monday; years count also where the
calendar has no dates. -/
def newYearWeekday (year : Int) : Int :=
  let y := year - 1
  (y * 365 + y / 4 - y / 100 + y / 400) % 7

/-- How many weeks a year has when weeks begin on Monday and belong to the year of their Thursday.
-/
def isoWeeks (year : Int) : Nat :=
  let w := newYearWeekday year
  if w = 3 ∨ (w = 2 ∧ isLeapYear year) then 53 else 52

/-- The year and week of a date when weeks begin on Monday and belong to the year of their Thursday.
-/
def isoWeek (d : Date) : Int × Nat :=
  let week : Int := ((d.ordinal : Int) - (d.weekday + 1) + 10) / 7
  if week < 1 then (d.year - 1, isoWeeks (d.year - 1))
  else if (isoWeeks d.year : Int) < week then (d.year + 1, 1)
  else (d.year, week.toNat)

/-- The date of a weekday in a week counted by Thursdays. -/
def ofIsoWeek? (year : Int) (week weekday : Nat) : Option Date :=
  if week = 0 ∨ isoWeeks year < week then none
  else
    let fourth := newYearWeekday year + 3
    let ordinal : Int := 7 * week + weekday + 1 - (fourth % 7 + 1) - 3
    if ordinal ≤ 0 then ofOrdinal? (year - 1) ((daysInYear (year - 1) : Int) + ordinal).toNat
    else if (daysInYear year : Int) < ordinal then
      ofOrdinal? (year + 1) (ordinal - daysInYear year).toNat
    else ofOrdinal? year ordinal.toNat

end Date

end DocQuery
