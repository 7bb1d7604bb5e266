import DocQuery.Number.Power

/-!
# DocQuery.Number.Binary64 — double precision numbers in exact arithmetic

A finite number is a sign and a magnitude, and a magnitude is `significand * 2 ^ exponent` units of
`2 ^ -1074`, the smallest positive number.  Every magnitude has one form only, so two of them are
equal exactly when they stand for the same value.  All operations work on the whole number of units:
comparing is comparing integers, and adding, multiplying, dividing and reading decimals are the
exact result rounded once to the nearest magnitude (`Magnitude.nearest?`), a half going to the even
significand.

A NaN keeps its sign: nothing compares by it, but the bit pattern that tells two hashed numbers
apart does (`Binary64.bits`).
-/

namespace DocQuery

/-! ## Magnitudes -/

/-- A magnitude of double precision, `significand * 2 ^ exponent` units of `2 ^ -1074`.  The three
conditions leave exactly one form for each value. -/
structure Magnitude where
  significand : Nat
  exponent : Nat
  significand_lt : significand < Power.two 53
  normal : Power.two 52 ≤ significand ∨ exponent = 0
  exponent_le : exponent ≤ 2045
deriving DecidableEq

namespace Magnitude

/-- How many smallest units the number one has. -/
def one : Nat := Power.two 1074

/-- The whole number of units that the magnitude stands for. -/
def units (m : Magnitude) : Nat := m.significand * Power.two m.exponent

/-- The magnitude of no units. -/
def zero : Magnitude := ⟨0, 0, by decide, Or.inr rfl, by decide⟩

/-- The magnitude with this significand and exponent, if they are in its one form. -/
def ofParts? (significand exponent : Nat) : Option Magnitude :=
  if h : significand < Power.two 53 ∧ (Power.two 52 ≤ significand ∨ exponent = 0) ∧
      exponent ≤ 2045 then
    some ⟨significand, exponent, h.1, h.2.1, h.2.2⟩
  else none

/-- The quotient `n / d` rounded to the nearest whole number, a half going to the even one. -/
def roundedQuotient (n d : Nat) : Nat :=
  let q := n / d
  let r := n % d
  if d < 2 * r ∨ (d = 2 * r ∧ q % 2 = 1) then q + 1 else q

/-- The exponent at which `n / d` units have a significand of 53 bits, or zero for less than that.
The difference of the bit lengths leaves two candidates, and the lower one is tried first. -/
def exponentOf (n d : Nat) : Nat :=
  let p := n.log2 - (d.log2 + 53)
  if n / (d * Power.two p) < Power.two 53 then p else p + 1

/-- The magnitude nearest to `n / d` units, of two nearest the one with an even significand; `none`
if that is beyond the largest one. -/
def nearest? (n d : Nat) : Option Magnitude :=
  let p := exponentOf n d
  let m := roundedQuotient n (d * Power.two p)
  if m = Power.two 53 then ofParts? (Power.two 52) (p + 1) else ofParts? m p

end Magnitude

/-! ## Numbers -/

/-- A double precision number: NaN or an infinity with a sign, or a finite number. -/
inductive Binary64 where
  | nan (negative : Bool)
  | infinite (negative : Bool)
  | finite (negative : Bool) (magnitude : Magnitude)
deriving DecidableEq

namespace Binary64

/-- Zero with a sign. -/
def zero (negative : Bool) : Binary64 := .finite negative .zero

/-- The number nearest to `n / d` units with the given sign, an infinity beyond the largest. -/
def ofUnits (negative : Bool) (n d : Nat) : Binary64 :=
  match Magnitude.nearest? n d with
  | some m => .finite negative m
  | none => .infinite negative

/-- The number nearest to an integer. -/
def ofInt (i : Int) : Binary64 :=
  ofUnits (decide (i < 0)) (i.natAbs * Magnitude.one) 1

/-- The number nearest to `digits * 10 ^ exponent`, with a sign.  Exponents far outside the range
are answered without computing the power. -/
def ofDecimal (negative : Bool) (digits : Nat) (exponent : Int) : Binary64 :=
  let size : Int := (Nat.toDigits 10 digits).length
  if digits = 0 then zero negative
  else if size + exponent < -330 then zero negative
  else if 310 < size + exponent then .infinite negative
  else match exponent with
    | .ofNat e => ofUnits negative (digits * Power.ten e * Magnitude.one) 1
    | .negSucc e => ofUnits negative (digits * Magnitude.one) (Power.ten (e + 1))

/-! ## Views -/

/-- Whether the sign is set. -/
def isNegative : Binary64 → Bool
  | .nan s | .infinite s | .finite s _ => s

/-- Whether the number is a NaN. -/
def isNaN : Binary64 → Bool
  | .nan _ => true
  | _ => false

/-- Whether the number is finite. -/
def isFinite : Binary64 → Bool
  | .finite .. => true
  | _ => false

/-- The signed whole number of units of a finite number. -/
def signedUnits (negative : Bool) (m : Magnitude) : Int :=
  if negative then -(m.units : Int) else m.units

/-- Whether the number is a zero of either sign. -/
def isZero : Binary64 → Bool
  | .finite _ m => m.units == 0
  | _ => false

/-- Whether the number is finite and whole. -/
def isWhole : Binary64 → Bool
  | .finite _ m => m.units % Magnitude.one == 0
  | _ => false

/-- The bit pattern: sign, biased exponent, fraction.  NaNs have the quiet pattern. -/
def bits (x : Binary64) : Nat :=
  (if x.isNegative then Power.two 63 else 0) +
    match x with
    | .nan _ => 2047 * Power.two 52 + Power.two 51
    | .infinite _ => 2047 * Power.two 52
    | .finite _ m =>
      if m.significand < Power.two 52 then m.significand
      else (m.exponent + 1) * Power.two 52 + (m.significand - Power.two 52)

/-! ## Order -/

/-- A place on the number line with both infinities, and after them a place for every NaN. -/
inductive Place where
  | below
  | units (n : Int)
  | above
  | unordered
deriving DecidableEq

/-- Where a number stands. -/
def place : Binary64 → Place
  | .nan _ => .unordered
  | .infinite true => .below
  | .infinite false => .above
  | .finite s m => .units (signedUnits s m)

namespace Place

/-- Where an integer stands. -/
def ofInt (i : Int) : Place := .units (i * Magnitude.one)

/-- The order of the places: the lower infinity, the numbers, the upper infinity, NaN. -/
def compare : Place → Place → Ordering
  | .below, .below => .eq
  | .below, _ => .lt
  | .units _, .below => .gt
  | .units a, .units b => Ord.compare a b
  | .units _, _ => .lt
  | .above, .above => .eq
  | .above, .unordered => .lt
  | .above, _ => .gt
  | .unordered, .unordered => .eq
  | .unordered, _ => .gt

end Place

/-- Whether two numbers have the same value: zeros of both signs do, and no NaN equals anything. -/
def equals (x y : Binary64) : Bool :=
  !x.isNaN && !y.isNaN && x.place == y.place

/-- Whether the first number is less than the second; never so with a NaN. -/
def less (x y : Binary64) : Bool :=
  !x.isNaN && !y.isNaN && x.place.compare y.place == .lt

/-! ## Arithmetic

An operand that is a NaN is the result, the first one of two; an operation without a value gives the
NaN with its sign set. -/

/-- A whole number of units as a number; `negativeZero` is the sign of nothing. -/
def ofSignedUnits (negativeZero : Bool) (n : Int) : Binary64 :=
  if n = 0 then zero negativeZero else ofUnits (decide (n < 0)) n.natAbs 1

/-- The sum, rounded once.  Two zeros add up to the negative zero only if both are negative. -/
def add : Binary64 → Binary64 → Binary64
  | .nan s, _ => .nan s
  | _, .nan s => .nan s
  | .infinite s, .infinite t => if s = t then .infinite s else .nan true
  | .infinite s, .finite .. => .infinite s
  | .finite .., .infinite t => .infinite t
  | .finite s a, .finite t b => ofSignedUnits (s && t) (signedUnits s a + signedUnits t b)

/-- The product, rounded once. -/
def mul : Binary64 → Binary64 → Binary64
  | .nan s, _ => .nan s
  | _, .nan s => .nan s
  | .infinite s, .infinite t => .infinite (s != t)
  | .infinite s, .finite t b => if b.units = 0 then .nan true else .infinite (s != t)
  | .finite s a, .infinite t => if a.units = 0 then .nan true else .infinite (s != t)
  | .finite s a, .finite t b => ofUnits (s != t) (a.units * b.units) Magnitude.one

/-- The quotient, rounded once. -/
def div : Binary64 → Binary64 → Binary64
  | .nan s, _ => .nan s
  | _, .nan s => .nan s
  | .infinite _, .infinite _ => .nan true
  | .infinite s, .finite t _ => .infinite (s != t)
  | .finite s _, .infinite t => zero (s != t)
  | .finite s a, .finite t b =>
    if b.units = 0 then
      if a.units = 0 then .nan true else .infinite (s != t)
    else ofUnits (s != t) (a.units * Magnitude.one) b.units

/-! ## To integers -/

/-- The whole part, toward zero, brought into the range from `low` to `high`; a NaN gives zero. -/
def toIntWithin (low high : Int) : Binary64 → Int
  | .nan _ => 0
  | .infinite true => low
  | .infinite false => high
  | .finite s m =>
    let whole : Int := (m.units / Magnitude.one : Nat)
    max low (min high (if s then -whole else whole))

end Binary64

end DocQuery
