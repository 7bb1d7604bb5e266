import DocQuery.Number.Binary64
import DocQuery.Text.Chars

/-!
# DocQuery.Number.Decimal — numbers written in decimal

The two readers that every text of a number goes through: integers of 64 bits, and double precision
numbers, which may have a fraction, an exponent or the names of the infinities and NaN.  Both take
ASCII digits only and nothing but the number: blanks are the caller's matter.
-/

namespace DocQuery.Decimal

/-! ## Digits -/

/-- The value of a digit. -/
def digitValue (c : Char) : Nat := c.toNat - '0'.toNat

/-- The number written by a run of digits. -/
def ofDigits (ds : List Char) : Nat := ds.foldl (fun n d => 10 * n + digitValue d) 0

/-- The leading run of digits and what follows it. -/
def spanDigits (s : List Char) : List Char × List Char := s.span Char.isDigit

/-- A sign in front of a text, `true` for minus, and what follows it. -/
def spanSign : List Char → Bool × List Char
  | '-' :: s => (true, s)
  | '+' :: s => (false, s)
  | s => (false, s)

/-! ## Integers -/

/-- A natural number: at least one digit, and nothing else. -/
def readNat? (s : List Char) : Option Nat :=
  if s ≠ [] ∧ s.all Char.isDigit then some (ofDigits s) else none

/-- An index: a natural number below `2 ^ 64`, with an optional plus sign. -/
def readIndex? (s : List Char) : Option Nat :=
  let digits := match s with
    | '+' :: r => r
    | _ => s
  match readNat? digits with
  | some n => if n ≤ Word.greatestUnsigned then some n else none
  | none => none

/-- An integer of 64 bits with an optional sign. -/
def readInt64? (s : List Char) : Option Int64 :=
  let (negative, digits) := spanSign s
  (readNat? digits).bind fun n => Word.ofInt? (if negative then -(n : Int) else n)

/-! ## Double precision -/

/-- The exponent part of a number, which ends the text: nothing, or a mark, a sign and digits. -/
def readExponent? : List Char → Option Int
  | [] => some 0
  | c :: s =>
    if c = 'e' ∨ c = 'E' then
      let (negative, digits) := spanSign s
      (readNat? digits).map fun n => if negative then -(n : Int) else n
    else none

/-- The unsigned part of a number: digits with an optional fraction, of which at least one must have
a digit, and an optional exponent. -/
def readUnsigned? (negative : Bool) (s : List Char) : Option Binary64 :=
  let (whole, rest) := spanDigits s
  let (fraction, rest) := match rest with
    | '.' :: r => spanDigits r
    | _ => ([], rest)
  if whole = [] ∧ fraction = [] then none
  else (readExponent? rest).map fun e =>
    Binary64.ofDecimal negative (ofDigits (whole ++ fraction)) (e - fraction.length)

/-- A double precision number: an optional sign and then a decimal number, `inf`, `infinity` or
`nan` in any case. -/
def readBinary64? (s : List Char) : Option Binary64 :=
  let (negative, body) := spanSign s
  let name := Text.lower body
  if name = "inf".toList ∨ name = "infinity".toList then some (.infinite negative)
  else if name = "nan".toList then some (.nan negative)
  else readUnsigned? negative body

end DocQuery.Decimal
