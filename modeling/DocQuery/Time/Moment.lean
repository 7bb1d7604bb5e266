import DocQuery.Time.Date

/-!
# DocQuery.Time.Moment — a date with a time of day

A moment has no zone.  The time is a second of the day and nanoseconds; a leap second is the second
before it with a full second of nanoseconds more, so moments compare as tuples.  The count of
milliseconds from 1970-01-01 is the number a moment converts to and from.
-/

namespace DocQuery

/-- A date and a time of day to the nanosecond; from `10 ^ 9` nanoseconds on it is a leap second. -/
structure Moment where
  date : Date
  second : Nat
  nanos : Nat
  second_lt : second < 86400
  nanos_lt : nanos < 2000000000
deriving DecidableEq

namespace Moment

/-- The moment of a date, a second of the day and nanoseconds, if they are in range. -/
def of? (date : Date) (second nanos : Nat) : Option Moment :=
  if h : second < 86400 ∧ nanos < 2000000000 then some ⟨date, second, nanos, h.1, h.2⟩ else none

/-- The first instant of a date. -/
def midnight (date : Date) : Moment := ⟨date, 0, 0, by decide, by decide⟩

/-- Moments in the order of time. -/
def compare (a b : Moment) : Ordering :=
  (a.date.compare b.date).then
    ((Ord.compare a.second b.second).then (Ord.compare a.nanos b.nanos))

/-! ## Counts from 1970-01-01 -/

/-- Whole seconds from the start of 1970-01-01; a leap second counts as the second before it. -/
def seconds (m : Moment) : Int := m.date.dayNumber * 86400 + m.second

/-- Whole milliseconds from the start of 1970-01-01. -/
def milliseconds (m : Moment) : Int := m.seconds * 1000 + m.nanos / 1000000

/-- The moment so many seconds from the start of 1970-01-01, with nanoseconds. -/
def ofSeconds? (seconds : Int) (nanos : Nat) : Option Moment :=
  match Date.ofDayNumber? (seconds / 86400) with
  | some date => of? date (seconds % 86400).toNat nanos
  | none => none

/-- The moment so many milliseconds from the start of 1970-01-01. -/
def ofMilliseconds? (n : Int) : Option Moment :=
  ofSeconds? (n / 1000) ((n % 1000).toNat * 1000000)

/-- The moment some seconds earlier; a leap second stays one. -/
def minusSeconds? (m : Moment) (offset : Int) : Option Moment :=
  ofSeconds? (m.seconds - offset) m.nanos

/-! ## Texts -/

/-- A natural number with leading zeros up to a width. -/
def padded (width n : Nat) : List Char :=
  let ds := Nat.toDigits 10 n
  List.replicate (width - ds.length) '0' ++ ds

/-- A year: four digits from 0 to 9999, and a sign before at least four digits otherwise. -/
def yearText (year : Int) : List Char :=
  if 0 ≤ year ∧ year ≤ 9999 then padded 4 year.natAbs
  else (if year < 0 then '-' else '+') :: padded 4 year.natAbs

/-- The date and the time to the second, with `separator` between them. -/
def write (separator : Char) (m : Moment) : List Char :=
  let second := m.second % 60 + m.nanos / 1000000000
  yearText m.date.year ++ '-' :: padded 2 m.date.month ++ '-' :: padded 2 m.date.day ++
    separator :: padded 2 (m.second / 3600) ++ ':' :: padded 2 (m.second / 60 % 60) ++
    ':' :: padded 2 second

/-- The text a cell shows, to the second: `2024-01-02 03:04:05`. -/
def text (m : Moment) : String := String.ofList (m.write ' ')

/-- The text a document shows, to the second: `2024-01-02T03:04:05`. -/
def documentText (m : Moment) : String := String.ofList (m.write 'T')

/-- The fraction of the second with the fewest of 0, 3, 6 or 9 digits that show it whole. -/
def fraction (m : Moment) : List Char :=
  let n := m.nanos % 1000000000
  if n = 0 then []
  else if n % 1000000 = 0 then '.' :: padded 3 (n / 1000000)
  else if n % 1000 = 0 then '.' :: padded 6 (n / 1000)
  else '.' :: padded 9 n

/-- The full text with the fraction of the second. -/
def fullText (m : Moment) : String := String.ofList (m.write 'T' ++ m.fraction)

end Moment

end DocQuery
