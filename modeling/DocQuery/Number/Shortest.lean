import DocQuery.Number.Binary64

/-!
# DocQuery.Number.Shortest — the fewest digits that read back

A finite number is written with the least count of significant digits whose nearest number is the
number itself, and of the decimals of that count the one nearest to it (`Magnitude.shortest`).  How
the digits are laid out, positional or with an exponent, is a `NumberStyle`.
-/

namespace DocQuery

/-- A decimal `digits * 10 ^ exponent`. -/
structure Digits where
  digits : Nat
  exponent : Int
deriving DecidableEq

/-- Which of two equally near decimals is taken. -/
inductive Tie where
  | upper
  | even
deriving DecidableEq

namespace Magnitude

/-- The decimal position of a magnitude: the `k` with `10 ^ (k - 1) ≤ value < 10 ^ k`.  The smallest
magnitude has a nonzero whole part when multiplied by `10 ^ 324`, so counting digits there is exact.
-/
def position (m : Magnitude) : Int :=
  ((Nat.toDigits 10 (m.units * Power.ten 324 / one)).length : Int) - 324

/-- Whether a decimal reads back as the magnitude. -/
def readsBack (m : Magnitude) (d : Digits) : Bool :=
  Binary64.ofDecimal false d.digits d.exponent = .finite false m

/-- The magnitude as a quotient of natural numbers in units of `10 ^ exponent`. -/
def overPower (m : Magnitude) : Int → Nat × Nat
  | .ofNat e => (m.units, one * Power.ten e)
  | .negSucc e => (m.units * Power.ten (e + 1), one)

/-- The decimal of `count` digits that reads back and is nearest to the magnitude, if one does.
Only the two neighbours of the magnitude on the grid of that count can be it.  -/
def withDigits? (tie : Tie) (m : Magnitude) (count : Nat) : Option Digits :=
  let e : Int := m.position - count
  let q := m.overPower e
  let low := q.1 / q.2
  let twice := 2 * (q.1 % q.2)
  let lowFirst := twice < q.2 || (twice == q.2 && tie == .even && low % 2 == 0)
  let near := if lowFirst then low else low + 1
  let far := if lowFirst then low + 1 else low
  if m.readsBack ⟨near, e⟩ then some ⟨near, e⟩
  else if m.readsBack ⟨far, e⟩ then some ⟨far, e⟩
  else none

/-- The exact decimal expansion, which reads back because nothing is rounded. -/
def exactDigits (m : Magnitude) : Digits :=
  ⟨m.units * (Power.ten 1074 / one), -1074⟩

/-- The decimal with the fewest digits that reads back as the magnitude. -/
def shortest (tie : Tie) (m : Magnitude) : Digits :=
  ((List.range' 1 17).findSome? (m.withDigits? tie)).getD m.exactDigits

end Magnitude

/-! ## Layout -/

/-- How a finite number is written: which of two equally near decimals is taken, whether a whole
number ends in a point and a zero, and for which decimal exponents of the first digit the positional
form is used.  Beyond these the form is one digit, the fraction and a signed exponent. -/
structure NumberStyle where
  tie : Tie
  pointZero : Bool
  positional : Int → Bool

namespace NumberStyle

/-- The digits of a decimal without trailing zeros, and the exponent that goes with them. -/
def trimZeros (d : Digits) : List Char × Int :=
  let ds := Nat.toDigits 10 d.digits
  let kept := (ds.reverse.dropWhile (· == '0')).reverse
  (kept, d.exponent + (ds.length - kept.length : Nat))

/-- Digits `ds * 10 ^ e` in positional form. -/
def writePositional (pointZero : Bool) (ds : List Char) (e : Int) : List Char :=
  match e with
  | .ofNat z => ds ++ List.replicate z '0' ++ (if pointZero then ['.', '0'] else [])
  | .negSucc z =>
    let places := z + 1
    if places < ds.length then ds.take (ds.length - places) ++ '.' :: ds.drop (ds.length - places)
    else '0' :: '.' :: (List.replicate (places - ds.length) '0' ++ ds)

/-- Digits with the exponent `e` of the first one, as one digit, a fraction and the exponent. -/
def writeScientific (ds : List Char) (e : Int) : List Char :=
  let mantissa := match ds with
    | d :: f :: fs => d :: '.' :: f :: fs
    | _ => ds
  let sign := if e < 0 then '-' else '+'
  mantissa ++ 'e' :: sign :: Nat.toDigits 10 e.natAbs

/-- The text of a magnitude. -/
def writeMagnitude (style : NumberStyle) (m : Magnitude) : List Char :=
  if m.units = 0 then writePositional style.pointZero ['0'] 0
  else
    let (ds, e) := trimZeros (m.shortest style.tie)
    let first : Int := e + ds.length - 1
    if style.positional first then writePositional style.pointZero ds e
    else writeScientific ds first

/-- The text of a finite number. -/
def write (style : NumberStyle) (negative : Bool) (m : Magnitude) : List Char :=
  if negative then '-' :: style.writeMagnitude m else style.writeMagnitude m

/-- How a cell shows a number: always positional, and a whole number without a point. -/
def cell : NumberStyle where
  tie := .upper
  pointZero := false
  positional := fun _ => true

/-- How a literal shows a whole number: positional with a point and a zero. -/
def literal : NumberStyle := { cell with pointZero := true }

/-- How a document shows a number: positional for first digits between `10 ^ -5` and `10 ^ 15`, a
whole number with a point and a zero. -/
def document : NumberStyle where
  tie := .even
  pointZero := true
  positional := fun e => -5 ≤ e && e ≤ 15

end NumberStyle

namespace Binary64

/-- The text of a number in a style; the infinities are `inf` and `-inf`, every NaN is `NaN`. -/
def write (style : NumberStyle) : Binary64 → List Char
  | .nan _ => "NaN".toList
  | .infinite s => if s then "-inf".toList else "inf".toList
  | .finite s m => style.write s m

/-- The text of a number as a cell shows it. -/
def text (x : Binary64) : String := String.ofList (x.write .cell)

end Binary64

end DocQuery
