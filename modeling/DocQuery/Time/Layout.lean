import DocQuery.Text.Chars

/-!
# DocQuery.Time.Layout — patterns of dates and times

A layout is a list of items: literal text, blanks, numbers (`%Y`, `%m`), names (`%b`, `%A`) and
zones (`%z`).  `Layout.ofText?` reads one from its pattern.  Each `%` letter stands for one item or,
as `%T`, for several; a pattern with an unknown letter is no layout.  The padding marks `-`, `0`
and `_` may stand before the letter of a single number and mean nothing when a text is read.
-/

namespace DocQuery

/-- The numbers that a layout can ask for. -/
inductive NumberField where
  | year | century | yearOfCentury
  | isoYear | isoCentury | isoYearOfCentury
  | quarter | month | day
  | weekFromSunday | weekFromMonday | isoWeek
  | daysFromSunday | dayFromMonday
  | ordinal
  | hour | hour12 | minute | second | nanosecond
  | timestamp
deriving DecidableEq

/-- How the zone of a layout is written. -/
inductive ZoneForm where
  /-- Hours and minutes. -/
  | full
  /-- Hours, and minutes where they are given; the letter Z stands for zero. -/
  | relaxed
deriving DecidableEq

/-- One item of a layout. -/
inductive LayoutItem where
  | literal (text : List Char)
  | blanks
  | number (field : NumberField)
  | shortMonth
  | longMonth
  | shortWeekday
  | longWeekday
  | halfOfDay
  /-- A point and digits, where there is a point. -/
  | fraction
  /-- A point and exactly so many digits, where there is a point. -/
  | fixedFraction (digits : Nat)
  /-- Exactly so many digits of a fraction, without a point. -/
  | bareFraction (digits : Nat)
  | zoneName
  | zone (form : ZoneForm)
  /-- Date, time and zone as internet timestamps write them. -/
  | timestampText
deriving DecidableEq

/-- A pattern of dates and times. -/
abbrev Layout := List LayoutItem

namespace Layout

/-- The text of one character. -/
private def lit (c : Char) : LayoutItem := .literal [c]

/-- Hours, minutes and seconds between colons. -/
private def clock : Layout :=
  [.number .hour, lit ':', .number .minute, lit ':', .number .second]

/-- Month, day and year of the century between slashes. -/
private def slashed : Layout :=
  [.number .month, lit '/', .number .day, lit '/', .number .yearOfCentury]

/-- The items that a letter stands for when no other character belongs to it. -/
def ofLetter? : Char → Option Layout
  | 'A' => some [.longWeekday]
  | 'B' => some [.longMonth]
  | 'C' => some [.number .century]
  | 'D' => some slashed
  | 'F' => some [.number .year, lit '-', .number .month, lit '-', .number .day]
  | 'G' => some [.number .isoYear]
  | 'H' => some [.number .hour]
  | 'I' => some [.number .hour12]
  | 'M' => some [.number .minute]
  | 'P' => some [.halfOfDay]
  | 'R' => some [.number .hour, lit ':', .number .minute]
  | 'S' => some [.number .second]
  | 'T' => some clock
  | 'U' => some [.number .weekFromSunday]
  | 'V' => some [.number .isoWeek]
  | 'W' => some [.number .weekFromMonday]
  | 'X' => some clock
  | 'Y' => some [.number .year]
  | 'Z' => some [.zoneName]
  | 'a' => some [.shortWeekday]
  | 'b' => some [.shortMonth]
  | 'c' => some ([.shortWeekday, .blanks, .shortMonth, .blanks, .number .day, .blanks] ++ clock ++
      [.blanks, .number .year])
  | 'd' => some [.number .day]
  | 'e' => some [.number .day]
  | 'f' => some [.number .nanosecond]
  | 'g' => some [.number .isoYearOfCentury]
  | 'h' => some [.shortMonth]
  | 'j' => some [.number .ordinal]
  | 'k' => some [.number .hour]
  | 'l' => some [.number .hour12]
  | 'm' => some [.number .month]
  | 'n' => some [.blanks]
  | 'p' => some [.halfOfDay]
  | 'q' => some [.number .quarter]
  | 'r' => some ([.number .hour12, lit ':', .number .minute, lit ':', .number .second, .blanks,
      .halfOfDay])
  | 's' => some [.number .timestamp]
  | 't' => some [.blanks]
  | 'u' => some [.number .dayFromMonday]
  | 'v' => some [.number .day, lit '-', .shortMonth, lit '-', .number .year]
  | 'w' => some [.number .daysFromSunday]
  | 'x' => some slashed
  | 'y' => some [.number .yearOfCentury]
  | 'z' => some [.zone .full]
  | '+' => some [.timestampText]
  | '%' => some [lit '%']
  | _ => none

/-- The items of the specifier that begins after a percent sign, and the rest of the pattern. -/
def specifier? : List Char → Option (Layout × List Char)
  | '#' :: 'z' :: s => some ([.zone .relaxed], s)
  | ':' :: ':' :: ':' :: 'z' :: s => some ([.zone .full], s)
  | ':' :: ':' :: 'z' :: s => some ([.zone .full], s)
  | ':' :: 'z' :: s => some ([.zone .full], s)
  | '.' :: 'f' :: s => some ([.fraction], s)
  | '.' :: '3' :: 'f' :: s => some ([.fixedFraction 3], s)
  | '.' :: '6' :: 'f' :: s => some ([.fixedFraction 6], s)
  | '.' :: '9' :: 'f' :: s => some ([.fixedFraction 9], s)
  | '3' :: 'f' :: s => some ([.bareFraction 3], s)
  | '6' :: 'f' :: s => some ([.bareFraction 6], s)
  | '9' :: 'f' :: s => some ([.bareFraction 9], s)
  | c :: s => (ofLetter? c).map (·, s)
  | [] => none

/-- A specifier with an optional padding mark, which only a single number may have. -/
def paddedSpecifier? : List Char → Option (Layout × List Char)
  | [] => none
  | c :: s =>
    if c = '-' ∨ c = '0' ∨ c = '_' then
      match specifier? s with
      | some ([.number field], rest) => some ([.number field], rest)
      | _ => none
    else specifier? (c :: s)

/-- The layout of a pattern, read with at most `fuel` items; a pattern has no more than characters.
-/
def ofChars? : (fuel : Nat) → List Char → Option Layout
  | _, [] => some []
  | 0, _ => none
  | fuel + 1, c :: s =>
    if c = '%' then
      match paddedSpecifier? s with
      | some (items, rest) => (ofChars? fuel rest).map (items ++ ·)
      | none => none
    else if Text.isBlank c then
      (ofChars? fuel (s.dropWhile Text.isBlank)).map (.blanks :: ·)
    else
      let plain := fun a => !Text.isBlank a && a != '%'
      (ofChars? fuel (s.dropWhile plain)).map (.literal (c :: s.takeWhile plain) :: ·)

/-- The layout of a pattern, if all its specifiers are known. -/
def ofText? (pattern : List Char) : Option Layout := ofChars? pattern.length pattern

end Layout

end DocQuery
