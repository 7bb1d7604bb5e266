import DocQuery.Toml.Basic

/-!
# DocQuery.Toml.Scalar — numbers, booleans, dates and times of TOML

A scalar is a run of letters, digits and signs.  Whether it is an integer, a float, a boolean, a
date or a time is told by its whole text.  Digits of numbers may be parted by single underscores.
-/

namespace DocQuery.Toml

/-- Whether a character may be part of a scalar. -/
def isScalarChar (c : Char) : Bool :=
  c.isAlphanum || c == '_' || c == '+' || c == '-' || c == '.' || c == ':'

/-! ## Numbers -/

/-- The digits of a text without the underscores between them; each underscore has a digit on both
of its sides. -/
def digits? (isDigit : Char → Bool) : List Char → Option (List Char)
  | [] => none
  | [c] => if isDigit c then some [c] else none
  | c :: '_' :: rest => if isDigit c then (digits? isDigit rest).map (c :: ·) else none
  | c :: rest => if isDigit c then (digits? isDigit rest).map (c :: ·) else none

/-- The digits of a decimal number without a superfluous zero in front. -/
def decimalDigits? (s : List Char) : Option (List Char) :=
  (digits? Char.isDigit s).filter fun ds => ds.length == 1 || ds.head? != some '0'

/-- The value of a digit of any base. -/
def digitValue (c : Char) : Nat :=
  if c.isDigit then c.toNat - '0'.toNat else c.toLower.toNat - 'a'.toNat + 10

/-- A number in a base that its first characters tell. -/
def readBased? (base : Nat) (s : List Char) : Option Int :=
  (digits? (fun c => c.isAlphanum && digitValue c < base) s).map fun ds =>
    ds.foldl (fun n d => (base * n + digitValue d : Int)) 0

/-- A decimal integer with an optional sign. -/
def readDecimal? (s : List Char) : Option Int :=
  let (negative, body) := Decimal.spanSign s
  (decimalDigits? body).map fun ds =>
    if negative then -(Decimal.ofDigits ds : Int) else Decimal.ofDigits ds

/-- An integer of 64 bits. -/
def readInteger? (s : List Char) : Option Int64 :=
  let value := match s with
    | '0' :: 'x' :: rest => readBased? 16 rest
    | '0' :: 'o' :: rest => readBased? 8 rest
    | '0' :: 'b' :: rest => readBased? 2 rest
    | _ => readDecimal? s
  value.bind Word.ofInt?

/-- A number before the exponent: digits, or digits and a fraction. -/
def mantissa? (s : List Char) : Option (List Char) :=
  match Text.cutAt? '.' s with
  | none => decimalDigits? s
  | some (whole, fraction) =>
    (decimalDigits? whole).bind fun w => (digits? Char.isDigit fraction).map fun f => w ++ '.' :: f

/-- The exponent of a number, without its letter. -/
def exponent? (s : List Char) : Option (List Char) :=
  let (negative, body) := Decimal.spanSign s
  (digits? Char.isDigit body).map fun ds => if negative then '-' :: ds else ds

/-- A number with a fraction or an exponent, written in the way all decimal numbers are read. -/
def plainFloat? (s : List Char) : Option (List Char) :=
  match Text.cutAt? 'e' (s.map fun c => if c = 'E' then 'e' else c) with
  | some (front, back) =>
    (mantissa? front).bind fun m => (exponent? back).map fun e => m ++ 'e' :: e
  | none => if s.contains '.' then mantissa? s else none

/-- A double precision number: with a fraction or an exponent, `inf` or `nan`.  A number too large
to be finite is refused unless it is negative.  -/
def readFloat? (s : List Char) : Option Binary64 :=
  let (negative, body) := Decimal.spanSign s
  if body = "inf".toList then some (.infinite negative)
  else if body = "nan".toList then some (.nan negative)
  else ((plainFloat? body).bind Decimal.readBinary64?).bind fun x =>
    if x.isFinite then some (match x with
      | .finite _ m => .finite negative m
      | x => x)
    else if negative then some (.infinite true) else none

/-! ## Dates and times -/

/-- A natural number of exactly so many digits, from a lowest to a highest one. -/
def numberWithin? (width low high : Nat) (s : List Char) : Option Nat :=
  (Decimal.readNat? s).filter fun n => s.length == width && low ≤ n && n ≤ high

/-- Whether a text is a date: year, month and day. -/
def isDate (s : List Char) : Bool :=
  match Text.splitOnChar '-' s with
  | [y, m, d] =>
    match numberWithin? 4 0 9999 y, numberWithin? 2 1 12 m, numberWithin? 2 1 31 d with
    | some y, some m, some d =>
      let leap := y % 4 == 0 && (y % 100 != 0 || y % 400 == 0)
      let last := if m == 2 then (if leap then 29 else 28)
        else if [4, 6, 9, 11].contains m then 30 else 31
      d ≤ last
    | _, _, _ => false
  | _ => false

/-- Whether a text is the seconds of a time, with an optional fraction. -/
def isSecond (s : List Char) : Bool :=
  match Text.cutAt? '.' s with
  | none => (numberWithin? 2 0 60 s).isSome
  | some (whole, fraction) =>
    (numberWithin? 2 0 60 whole).isSome && fraction != [] && fraction.all Char.isDigit

/-- Whether a text is a time without offset. -/
def isTime (s : List Char) : Bool :=
  match Text.splitOnChar ':' s with
  | [h, m, sec] =>
    (numberWithin? 2 0 23 h).isSome && (numberWithin? 2 0 59 m).isSome && isSecond sec
  | _ => false

/-- Whether a text is an offset, hours and minutes, after its sign. -/
def isOffset (s : List Char) : Bool :=
  match Text.splitOnChar ':' s with
  | [h, m] => (numberWithin? 2 0 23 h).isSome && (numberWithin? 2 0 59 m).isSome
  | _ => false

/-- Whether a text is a time with an optional offset. -/
def isZonedTime (s : List Char) : Bool :=
  if s.getLast?.any fun c => c == 'Z' || c == 'z' then isTime s.dropLast
  else match s.span fun c => c != '+' && c != '-' with
    | (time, _ :: offset) => isTime time && isOffset offset
    | (time, []) => isTime time

/-- Whether a text is a date, a time, or both with a letter or a blank between them. -/
def isTemporal (s : List Char) : Bool :=
  isDate s || isTime s ||
    match s.drop 10 with
    | c :: time => isDate (s.take 10) && (c == 'T' || c == 't' || c == ' ') && isZonedTime time
    | [] => false

/-! ## All scalars -/

/-- The value of a scalar. -/
def readScalar? (s : List Char) : Option Toml :=
  if s = "true".toList then some (.boolean true)
  else if s = "false".toList then some (.boolean false)
  else if isTemporal s then some (.temporal (String.ofList s))
  else match readFloat? s with
    | some x => some (.float x)
    | none => (readInteger? s).map .integer

end DocQuery.Toml
