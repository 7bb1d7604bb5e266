import DocQuery.Number.Decimal
import DocQuery.Time.Layout
import DocQuery.Time.Moment

/-!
# DocQuery.Time.Reading — dates and times read from text

A layout is read item by item into the fields it names (`Fields`); a field that is given twice must
have one value.  Afterwards the fields are resolved to a date and a time: the first sufficient group
of them makes the date (year, month and day; year and day of the year; a week number and a weekday),
and all others must agree with it.  `Moment.read?` tries the layouts that a date or time in a cell
may have.
-/

namespace DocQuery

/-! ## Fields -/

/-- The fields of a date and time that a text has given. -/
structure Fields where
  year : Option Int := none
  century : Option Int := none
  yearOfCentury : Option Int := none
  isoYear : Option Int := none
  isoCentury : Option Int := none
  isoYearOfCentury : Option Int := none
  quarter : Option Int := none
  month : Option Int := none
  day : Option Int := none
  weekFromSunday : Option Int := none
  weekFromMonday : Option Int := none
  isoWeek : Option Int := none
  /-- From zero for Monday. -/
  weekday : Option Int := none
  ordinal : Option Int := none
  /-- Zero before noon and one after. -/
  half : Option Int := none
  hourOfHalf : Option Int := none
  minute : Option Int := none
  second : Option Int := none
  nanosecond : Option Int := none
  timestamp : Option Int := none
  /-- Seconds east of the zero meridian. -/
  offset : Option Int := none

namespace Fields

/-- The value of a field after it is given once more: the same value, or it had none. -/
def agree? (old : Option Int) (value : Int) : Option (Option Int) :=
  match old with
  | some v => if v = value then some old else none
  | none => some (some value)

/-- A value within bounds. -/
def within? (low high value : Int) : Option Int :=
  if low ≤ value ∧ value ≤ high then some value else none

/-- The fields with one number added, if it is in its range and agrees with what is there. -/
def setNumber? (f : Fields) (field : NumberField) (v : Int) : Option Fields :=
  let year32 := within? (-0x80000000) 0x7FFFFFFF v
  match field with
  | .year => do let v ← year32; return { f with year := ← agree? f.year v }
  | .century => do let v ← within? 0 0x7FFFFFFF v; return { f with century := ← agree? f.century v }
  | .yearOfCentury => do
    let v ← within? 0 99 v
    return { f with yearOfCentury := ← agree? f.yearOfCentury v }
  | .isoYear => do let v ← year32; return { f with isoYear := ← agree? f.isoYear v }
  | .isoCentury => do
    let v ← within? 0 0x7FFFFFFF v
    return { f with isoCentury := ← agree? f.isoCentury v }
  | .isoYearOfCentury => do
    let v ← within? 0 99 v
    return { f with isoYearOfCentury := ← agree? f.isoYearOfCentury v }
  | .quarter => do let v ← within? 1 4 v; return { f with quarter := ← agree? f.quarter v }
  | .month => do let v ← within? 1 12 v; return { f with month := ← agree? f.month v }
  | .day => do let v ← within? 1 31 v; return { f with day := ← agree? f.day v }
  | .weekFromSunday => do
    let v ← within? 0 53 v
    return { f with weekFromSunday := ← agree? f.weekFromSunday v }
  | .weekFromMonday => do
    let v ← within? 0 53 v
    return { f with weekFromMonday := ← agree? f.weekFromMonday v }
  | .isoWeek => do let v ← within? 1 53 v; return { f with isoWeek := ← agree? f.isoWeek v }
  | .daysFromSunday => do
    let v ← within? 0 6 v
    return { f with weekday := ← agree? f.weekday ((v + 6) % 7) }
  | .dayFromMonday => do
    let v ← within? 1 7 v
    return { f with weekday := ← agree? f.weekday (v - 1) }
  | .ordinal => do let v ← within? 1 366 v; return { f with ordinal := ← agree? f.ordinal v }
  | .hour => do
    let v ← within? 0 23 v
    return { f with half := ← agree? f.half (v / 12), hourOfHalf := ← agree? f.hourOfHalf (v % 12) }
  | .hour12 => do
    let v ← within? 1 12 v
    return { f with hourOfHalf := ← agree? f.hourOfHalf (v % 12) }
  | .minute => do let v ← within? 0 59 v; return { f with minute := ← agree? f.minute v }
  | .second => do let v ← within? 0 60 v; return { f with second := ← agree? f.second v }
  | .nanosecond => do
    let v ← within? 0 999999999 v
    return { f with nanosecond := ← agree? f.nanosecond v }
  | .timestamp => do return { f with timestamp := ← agree? f.timestamp v }

/-! ## Resolving fields -/

/-- Why fields do not make a date or a time: too few are given, or those given cannot be. -/
inductive Shortfall where
  | missing
  | impossible
deriving DecidableEq

/-- The year from a full year, a century and a year of the century.  The latter alone means the
years from 1970 to 2069; a full year beside the others must be positive and agree.  -/
def resolveYear (full century rest : Option Int) : Except Shortfall (Option Int) :=
  match full, century, rest with
  | y, none, none => .ok y
  | some y, c, r =>
    if 0 ≤ y ∧ c.getD (y / 100) = y / 100 ∧ r.getD (y % 100) = y % 100 then .ok (some y)
    else .error .impossible
  | none, some c, some r => .ok (some (c * 100 + r))
  | none, none, some r => .ok (some (r + if r < 70 then 2000 else 1900))
  | none, some _, none => .error .missing

/-- Whether a field, if given, has this value. -/
def agrees (field : Option Int) (value : Int) : Bool := field.getD value == value

/-- Whether the parts of a year agree with it; a year before zero has neither century nor rest. -/
def yearAgrees (full century rest : Option Int) (year : Int) : Bool :=
  agrees full year &&
    if 0 ≤ year then agrees century (year / 100) && agrees rest (year % 100)
    else century.isNone && rest.isNone

/-- Whether all the date fields agree with a date. -/
def dateAgrees (f : Fields) (d : Date) : Bool :=
  let iso := d.isoWeek
  yearAgrees f.year f.century f.yearOfCentury d.year &&
  agrees f.month d.month && agrees f.day d.day &&
  yearAgrees f.isoYear f.isoCentury f.isoYearOfCentury iso.1 && agrees f.isoWeek iso.2 &&
  agrees f.weekday d.weekday && agrees f.ordinal d.ordinal &&
  agrees f.weekFromSunday (d.weekFrom 6) && agrees f.weekFromMonday (d.weekFrom 0) &&
  agrees f.quarter ((d.month - 1) / 3 + 1 : Nat)

/-- The date that the fields give. -/
def date (f : Fields) : Except Shortfall Date := do
  let year ← resolveYear f.year f.century f.yearOfCentury
  let isoYear ← resolveYear f.isoYear f.isoCentury f.isoYearOfCentury
  let found : Option Date ← match year, f.month, f.day, f.ordinal, f.weekday with
    | some y, some m, some d, _, _ => .ok (Date.of? y m.toNat d.toNat)
    | some y, _, _, some o, _ => .ok (Date.ofOrdinal? y o.toNat)
    | year, _, _, _, some w =>
      match year, f.weekFromSunday, f.weekFromMonday, isoYear, f.isoWeek with
      | some y, some week, _, _, _ => .ok (Date.ofWeek? 6 y week.toNat w.toNat)
      | some y, _, some week, _, _ => .ok (Date.ofWeek? 0 y week.toNat w.toNat)
      | _, _, _, some y, some week => .ok (Date.ofIsoWeek? y week.toNat w.toNat)
      | _, _, _, _, _ => .error .missing
    | _, _, _, _, _ => .error .missing
  match found with
  | some d => if f.dateAgrees d then .ok d else .error .impossible
  | none => .error .impossible

/-- The second of the day and the nanoseconds that the fields give.  Seconds may be missing, but
then so must their fraction; second 60 is a leap second.  -/
def time (f : Fields) : Except Shortfall (Nat × Nat) :=
  match f.half, f.hourOfHalf, f.minute with
  | some half, some hour, some minute =>
    match f.second, f.nanosecond with
    | none, some _ => .error .missing
    | second, nanosecond =>
      let s := second.getD 0
      let leap := s == 60
      .ok (((half * 12 + hour) * 3600 + minute * 60 + if leap then 59 else s).toNat,
        (if leap then 1000000000 else 0) + (nanosecond.getD 0).toNat)
  | _, _, _ => .error .missing

/-- The fields completed from the moment of their timestamp. -/
def completed? (f : Fields) (timestamp : Int) : Option Fields := do
  let m ← Moment.ofSeconds? timestamp 0
  let leap := f.second == some 60
  let m ← if !leap || m.second % 60 = 59 then some m
    else if m.second % 60 = 0 then Moment.ofSeconds? (timestamp - 1) 0
    else none
  let f ← if leap then some f else f.setNumber? .second (m.second % 60 : Nat)
  let f ← f.setNumber? .year m.date.year
  let f ← f.setNumber? .ordinal m.date.ordinal
  let f ← f.setNumber? .hour (m.second / 3600 : Nat)
  f.setNumber? .minute (m.second / 60 % 60 : Nat)

/-- The moment of a date and a time. -/
def moment? (f : Fields) : Option Moment :=
  match f.date, f.time with
  | .ok d, .ok (second, nanos) => Moment.of? d second nanos
  | _, _ => none

/-- The moment that the fields give at an offset from the zero meridian.  A timestamp must agree
with date and time, where a leap second may be off by one, or stands in for what is missing of them.
-/
def momentAt? (f : Fields) (offset : Int) : Option Moment :=
  match f.date, f.time, f.timestamp with
  | .ok d, .ok (second, nanos), timestamp =>
    match Moment.of? d second nanos, timestamp with
    | some m, some given =>
      let expected := m.seconds - offset
      if given = expected ∨ (1000000000 ≤ nanos ∧ given = expected + 1) then some m else none
    | found, none => found
    | none, _ => none
  | .error .impossible, _, _ => none
  | _, .error .impossible, _ => none
  | _, _, none => none
  | _, _, some timestamp => (f.completed? (timestamp + offset)).bind moment?

end Fields

/-! ## Reading items -/

namespace Layout

/-- What reading an item leaves: the fields so far and the rest of the text. -/
abbrev Step := Option (Fields × List Char)

/-- A run of digits, at least `low` and at most `high` of them, as a number of 64 bits. -/
def number? (low high : Nat) (s : List Char) : Option (Int × List Char) :=
  let ds := (s.take high).takeWhile Char.isDigit
  let n := Decimal.ofDigits ds
  if ds.length < low ∨ Word.greatest < n then none else some ((n : Int), s.drop ds.length)

/-- How many digits a number takes when it has no sign. -/
def width : NumberField → Nat
  | .year | .isoYear => 4
  | .century | .yearOfCentury | .isoCentury | .isoYearOfCentury => 2
  | .quarter | .daysFromSunday | .dayFromMonday => 1
  | .month | .day | .weekFromSunday | .weekFromMonday | .isoWeek => 2
  | .ordinal => 3
  | .hour | .hour12 | .minute | .second => 2
  | .nanosecond => 9
  | .timestamp => 20

/-- A number field after blanks.  Only the two years may have a sign, and then any count of digits.
-/
def readNumber (field : NumberField) (f : Fields) (s : List Char) : Step := do
  let s := Text.trimStart s
  let signed := field == .year || field == .isoYear
  let (v, s) ← match signed, s with
    | true, '-' :: r => (number? 1 r.length r).map fun (v, r) => (-v, r)
    | true, '+' :: r => number? 1 r.length r
    | _, _ => if field == .timestamp then number? 1 s.length s else number? 1 (width field) s
  let f ← f.setNumber? field v
  return (f, s)

/-- What follows a word, if the text begins with it in any case. -/
def afterWord? (word : String) (s : List Char) : Option (List Char) :=
  let n := word.toList.length
  if Text.eqIgnoreCase (s.take n) word.toList then some (s.drop n) else none

/-- The index and the rest of the first word that the text begins with. -/
def firstWord? (words : List String) (s : List Char) : Option (Nat × List Char) :=
  words.zipIdx.findSome? fun (word, i) => (afterWord? word s).map (i, ·)

/-- The months by their first three letters, and what completes each name. -/
def months : List (String × String) :=
  [("jan", "uary"), ("feb", "ruary"), ("mar", "ch"), ("apr", "il"), ("may", ""), ("jun", "e"),
    ("jul", "y"), ("aug", "ust"), ("sep", "tember"), ("oct", "ober"), ("nov", "ember"),
    ("dec", "ember")]

/-- The weekdays by their first three letters, and what completes each name. -/
def weekdays : List (String × String) :=
  [("mon", "day"), ("tue", "sday"), ("wed", "nesday"), ("thu", "rsday"), ("fri", "day"),
    ("sat", "urday"), ("sun", "day")]

/-- The index of a name in its short form, or in either form where `long` is set. -/
def name? (names : List (String × String)) (long : Bool) (s : List Char) :
    Option (Nat × List Char) := do
  let (i, rest) ← firstWord? (names.map (·.1)) s
  let completion := (names[i]?.map (·.2)).getD ""
  return (i, if long then (afterWord? completion rest).getD rest else rest)

/-- A fraction of a second: up to nine digits count, and all further ones are passed over. -/
def readFraction (f : Fields) (s : List Char) : Step := do
  let (v, rest) ← number? 1 9 s
  let f ← f.setNumber? .nanosecond (v * Power.ten (9 - (s.length - rest.length)))
  return (f, rest.dropWhile Char.isDigit)

/-- A fraction of a second of exactly so many digits. -/
def readFixedFraction (digits : Nat) (f : Fields) (s : List Char) : Step := do
  let (v, rest) ← number? digits digits s
  let f ← f.setNumber? .nanosecond (v * Power.ten (9 - digits))
  return (f, rest)

/-- Two digits as a number. -/
def twoDigits? : List Char → Option (Int × List Char)
  | a :: b :: s =>
    if a.isDigit && b.isDigit then some ((Decimal.ofDigits [a, b] : Int), s) else none
  | _ => none

/-- A zone as seconds east: a sign, two digits of hours, what `separator` passes over, and two
digits of minutes.  With `zulu` the letter Z stands for zero; with `hoursOnly` the minutes may be
missing.  -/
def zone? (separator : List Char → Option (List Char)) (zulu hoursOnly : Bool) (s : List Char) :
    Option (Int × List Char) :=
  let signed := fun (sign : Int) (s : List Char) => do
    let (hours, s) ← twoDigits? s
    let s ← separator s
    match s with
    | [] => if hoursOnly then some (sign * (hours * 3600), []) else none
    | _ => do
      let (minutes, s) ← twoDigits? s
      if 60 ≤ minutes then none else some (sign * (hours * 3600 + minutes * 60), s)
  match s with
  | '+' :: s => signed 1 s
  | '-' :: s => signed (-1) s
  | c :: s =>
    if c = '\u2212' then signed (-1) s
    else if zulu ∧ (c = 'Z' ∨ c = 'z') then some (0, s)
    else none
  | [] => none

/-- Passes over colons and blanks between hours and minutes. -/
def colonsOrBlanks (s : List Char) : Option (List Char) :=
  some (s.dropWhile fun c => c == ':' || Text.isBlank c)

/-- Passes over the one colon between hours and minutes. -/
def oneColon : List Char → Option (List Char)
  | ':' :: s => some s
  | _ => none

/-- The fields with a zone added. -/
def setOffset? (f : Fields) (offset : Int) : Option Fields := do
  return { f with offset := ← Fields.agree? f.offset offset }

/-- Any item but an internet timestamp. -/
def readPlainItem (item : LayoutItem) (f : Fields) (s : List Char) : Step :=
  match item with
  | .literal text => (Text.afterStart? text s).map (f, ·)
  | .blanks => some (f, Text.trimStart s)
  | .number field => readNumber field f s
  | .shortMonth => do
    let (i, s) ← name? months false s
    return (← f.setNumber? .month (i + 1), s)
  | .longMonth => do
    let (i, s) ← name? months true s
    return (← f.setNumber? .month (i + 1), s)
  | .shortWeekday => do
    let (i, s) ← name? weekdays false s
    return (← f.setNumber? .dayFromMonday (i + 1), s)
  | .longWeekday => do
    let (i, s) ← name? weekdays true s
    return (← f.setNumber? .dayFromMonday (i + 1), s)
  | .halfOfDay => do
    let (i, s) ← firstWord? ["am", "pm"] s
    return ({ f with half := ← Fields.agree? f.half i }, s)
  | .fraction => match s with
    | '.' :: r => readFraction f r
    | _ => some (f, s)
  | .fixedFraction digits => match s with
    | '.' :: r => readFixedFraction digits f r
    | _ => some (f, s)
  | .bareFraction digits => readFixedFraction digits f s
  | .zoneName => some (f, s.dropWhile fun c => !Text.isBlank c)
  | .zone form => do
    let relaxed := form == .relaxed
    let (offset, s) ← zone? colonsOrBlanks relaxed relaxed (Text.trimStart s)
    return (← setOffset? f offset, s)
  | .timestampText => none

/-- Items one after the other. -/
def readItems (items : Layout) (f : Fields) (s : List Char) : Step :=
  items.foldlM (fun (f, s) item => readPlainItem item f s) (f, s)

/-- The date of an internet timestamp, with blanks allowed around its dashes. -/
def timestampDate : Layout :=
  [.number .year, .blanks, .literal ['-'], .number .month, .blanks, .literal ['-'], .number .day]

/-- The time of an internet timestamp, with blanks allowed around its colons. -/
def timestampTime : Layout :=
  [.number .hour, .blanks, .literal [':'], .number .minute, .blanks, .literal [':'],
    .number .second, .fraction, .blanks]

/-- What follows the letter or blank between date and time. -/
def afterDateMark? : List Char → Option (List Char)
  | c :: s => if c = 'T' ∨ c = 't' ∨ c = ' ' then some s else none
  | [] => none

/-- An internet timestamp within a layout, whose zone may also be the word UTC. -/
def readTimestampText (f : Fields) (s : List Char) : Step := do
  let (f, s) ← readItems timestampDate f s
  let s ← afterDateMark? s
  let (f, s) ← readItems timestampTime f s
  let (offset, s) ← match afterWord? "utc" s with
    | some rest => some (0, rest)
    | none => zone? colonsOrBlanks true false s
  return (← setOffset? f offset, s)

/-- One item. -/
def readItem (item : LayoutItem) (f : Fields) (s : List Char) : Step :=
  match item with
  | .timestampText => readTimestampText f s
  | item => readPlainItem item f s

/-- The fields that a whole text gives under a layout. -/
def fields? (layout : Layout) (s : List Char) : Option Fields :=
  match layout.foldlM (fun (f, s) item => readItem item f s) (({} : Fields), s) with
  | some (f, []) => some f
  | _ => none

/-- The moment that a whole text gives under a layout. -/
def moment? (layout : Layout) (s : List Char) : Option Moment :=
  (layout.fields? s).bind (·.momentAt? 0)

/-- The date that a whole text gives under a layout. -/
def date? (layout : Layout) (s : List Char) : Option Date :=
  match layout.fields? s with
  | some f => f.date.toOption
  | none => none

end Layout

/-! ## Moments in cells -/

namespace Moment

/-- Exactly so many digits as a number. -/
private def exactly? (digits : Nat) (s : List Char) : Option (Int × List Char) :=
  Layout.number? digits digits s

/-- What follows one given character. -/
private def after? (c : Char) : List Char → Option (List Char)
  | a :: s => if a = c then some s else none
  | [] => none

/-- A strict internet timestamp, as the moment at the zero meridian. -/
def ofTimestamp? (s : List Char) : Option Moment := do
  let (year, s) ← exactly? 4 s
  let (month, s) ← exactly? 2 (← after? '-' s)
  let (day, s) ← exactly? 2 (← after? '-' s)
  let (hour, s) ← exactly? 2 (← Layout.afterDateMark? s)
  let (minute, s) ← exactly? 2 (← after? ':' s)
  let (second, s) ← exactly? 2 (← after? ':' s)
  let f ← ({} : Fields).setNumber? .year year
  let f ← f.setNumber? .month month
  let f ← f.setNumber? .day day
  let f ← f.setNumber? .hour hour
  let f ← f.setNumber? .minute minute
  let f ← f.setNumber? .second second
  let (f, s) ← match s with
    | '.' :: r => Layout.readFraction f r
    | _ => some (f, s)
  let (offset, s) ← Layout.zone? Layout.oneColon true false s
  if s ≠ [] ∨ offset < -86340 ∨ 86340 < offset then none
  else (← f.moment?).minusSeconds? offset

/-- The patterns of a date with a time in a cell, in the order in which they are tried. -/
def patterns : List String :=
  ["%Y-%m-%d %H:%M:%S%.f", "%Y-%m-%d %H:%M:%S", "%Y-%m-%dT%H:%M:%S%.f", "%Y-%m-%dT%H:%M:%S",
    "%Y-%m-%d %H:%M"]

/-- The moment that a text gives under a pattern: a date with a time, or a date alone at midnight.
-/
def readWith? (pattern : List Char) (s : List Char) : Option Moment := do
  let layout ← Layout.ofText? pattern
  layout.moment? s <|> (layout.date? s).map midnight

/-- The moment that a text of a cell gives, blanks around it aside: a date with a time, an internet
timestamp, or a date alone. -/
def read? (text : List Char) : Option Moment :=
  let s := Text.trim text
  let withTime := patterns.findSome? fun p => (Layout.ofText? p.toList).bind (·.moment? s)
  withTime <|> ofTimestamp? s <|>
    ((Layout.ofText? "%Y-%m-%d".toList).bind (·.date? s)).map midnight

end Moment

end DocQuery
