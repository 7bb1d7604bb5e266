import DocQuery.Json.Basic
import DocQuery.Number.Decimal
import DocQuery.Text.Chars

/-!
# DocQuery.Json.Token — the tokens of a JSON text

A text is cut into tokens character by character (`Scan.step`): marks, strings with their escapes
decoded, words and numbers.  A text that is not made of tokens has none.

The value of a number follows one rule of reading: digits are gathered into a significand as long as
it fits 64 bits, the first that does not fit ends the gathering for good, and a significand with a
decimal exponent becomes a double precision number by one conversion and one multiplication or
division by a power of ten, which may be off the nearest number by a unit or so.
-/

namespace DocQuery.Json

/-! ## Numbers -/

/-- A significand with a sign and a decimal exponent as a number: a conversion and one operation.
Powers beyond `10 ^ 308` are applied in steps when they divide; `steps` bounds them, because a
number that is divided by `10 ^ 308` three times is zero.  -/
def scaled? (steps : Nat) (f : Binary64) (exponent : Int) : Option Binary64 :=
  if -308 ≤ exponent ∧ exponent ≤ 308 then
    let power := Binary64.ofDecimal false 1 exponent.natAbs
    if 0 ≤ exponent then
      let product := f.mul power
      if product.isFinite then some product else none
    else some (f.div power)
  else if f.isZero then some f
  else if 0 ≤ exponent then none
  else match steps with
    | 0 => some f
    | steps + 1 => scaled? steps (f.div (Binary64.ofDecimal false 1 308)) (exponent + 308)

/-- The number of a significand with a decimal exponent; `none` if it is too large. -/
def floatOf? (negative : Bool) (significand : Nat) (exponent : Int) : Option JsonNumber :=
  match scaled? 8 (Binary64.ofInt significand) exponent with
  | some (.finite _ m) => some (.float negative m)
  | _ => none

/-- A significand after a run of digits, and the digits that no longer fit 64 bits. -/
def gather : (significand : Nat) → List Char → Nat × List Char
  | n, [] => (n, [])
  | n, d :: ds =>
    let next := 10 * n + Decimal.digitValue d
    if next ≤ Word.greatestUnsigned then gather next ds else (n, d :: ds)

/-- The largest exponent that is counted. -/
def exponentLimit : Nat := 0x7FFFFFFF

/-- The number of a significand, a decimal exponent and the exponent part that ends the text. -/
def withExponent? (negative : Bool) (significand : Nat) (exponent : Int) (s : List Char) :
    Option JsonNumber :=
  match s with
  | [] => floatOf? negative significand exponent
  | c :: s =>
    if c = 'e' ∨ c = 'E' then
      let (down, digits) := Decimal.spanSign s
      match Decimal.readNat? digits with
      | none => none
      | some e =>
        if exponentLimit < e then
          if significand ≠ 0 ∧ !down then none else some (.float negative .zero)
        else floatOf? negative significand (if down then exponent - e else exponent + e)
    else none

/-- The number of a significand and the digits after it that did not fit, followed by an optional
fraction and an optional exponent. -/
def withFraction? (negative : Bool) (significand dropped : Nat) (s : List Char) :
    Option JsonNumber :=
  match s with
  | '.' :: s =>
    let (fraction, rest) := Decimal.spanDigits s
    if fraction = [] then none
    else
      let (significand, beyond) := gather significand fraction
      withExponent? negative significand ((dropped : Int) - (fraction.length - beyond.length : Nat))
        rest
  | s => withExponent? negative significand dropped s

/-- The number of an integer without fraction and exponent.  Minus zero and integers below `-2 ^ 63`
are double precision numbers. -/
def ofInteger? (negative : Bool) (n : Nat) : Option JsonNumber :=
  let i : Int := if negative then -(n : Int) else n
  if h : Word.least ≤ i ∧ i ≤ Word.greatestUnsigned ∧ ¬(negative ∧ n = 0) then
    some (.integer i h.1 h.2.1)
  else floatOf? negative n 0

/-- The number of a whole text. -/
def readNumber? (s : List Char) : Option JsonNumber :=
  let (negative, body) := match s with
    | '-' :: r => (true, r)
    | _ => (false, s)
  let (whole, rest) := Decimal.spanDigits body
  if whole = [] ∨ (whole.head? = some '0' ∧ whole.length ≠ 1) then none
  else
    let (significand, beyond) := gather 0 whole
    if rest = [] ∧ beyond = [] then ofInteger? negative significand
    else withFraction? negative significand beyond.length rest

/-! ## Tokens -/

/-- A token. -/
inductive Token where
  | openArray | closeArray | openObject | closeObject | comma | colon
  | string (s : String)
  | scalar (value : Json)

/-- What the characters read last may become. -/
inductive Mode where
  /-- Between tokens. -/
  | idle
  /-- Within a string: the characters so far, last first. -/
  | string (done : List Char)
  /-- After a backslash. -/
  | escape (done : List Char)
  /-- Within the digits of a code unit, `value` so far and `left` to come; `high` is the first half
  of a surrogate pair. -/
  | unicode (done : List Char) (high : Option Nat) (value left : Nat)
  /-- After the first half of a surrogate pair; `marked` once the backslash is read. -/
  | pair (done : List Char) (high : Nat) (marked : Bool)
  /-- Within a number, last character first. -/
  | number (done : List Char)
  /-- Within a word, last character first. -/
  | word (done : List Char)

/-- The state of cutting a text: the tokens so far, last first, and the mode. -/
structure Scan where
  tokens : List Token
  mode : Mode

namespace Scan

/-- The token of a word. -/
def wordToken? (w : List Char) : Option Token :=
  if w = "null".toList then some (.scalar .null)
  else if w = "true".toList then some (.scalar (.bool true))
  else if w = "false".toList then some (.scalar (.bool false))
  else none

/-- Whether a character can stand in a number. -/
def isNumberChar (c : Char) : Bool :=
  c.isDigit || c == '-' || c == '+' || c == '.' || c == 'e' || c == 'E'

/-- A character between tokens. -/
def start? (tokens : List Token) (c : Char) : Option Scan :=
  if c = ' ' ∨ c = '\n' ∨ c = '\r' ∨ c = '\t' then some ⟨tokens, .idle⟩
  else if c = '[' then some ⟨.openArray :: tokens, .idle⟩
  else if c = ']' then some ⟨.closeArray :: tokens, .idle⟩
  else if c = '\x7b' then some ⟨.openObject :: tokens, .idle⟩
  else if c = '\x7d' then some ⟨.closeObject :: tokens, .idle⟩
  else if c = ',' then some ⟨.comma :: tokens, .idle⟩
  else if c = ':' then some ⟨.colon :: tokens, .idle⟩
  else if c = '"' then some ⟨tokens, .string []⟩
  else if c.isDigit || c == '-' then some ⟨tokens, .number [c]⟩
  else if c.isAlpha then some ⟨tokens, .word [c]⟩
  else none

/-- The tokens once the number or word in progress is complete; none within a string. -/
def finish? : Scan → Option (List Token)
  | ⟨tokens, .idle⟩ => some tokens
  | ⟨tokens, .number done⟩ =>
    (readNumber? done.reverse).map fun n => .scalar (.number n) :: tokens
  | ⟨tokens, .word done⟩ => (wordToken? done.reverse).map (· :: tokens)
  | _ => none

/-- The mode after a complete code unit.  A first half waits for the second; a second half alone is
no character, nor is a pair of anything else.  -/
def afterUnit? (done : List Char) (high : Option Nat) (unit : Nat) : Option Mode :=
  match high with
  | none =>
    if 0xD800 ≤ unit ∧ unit < 0xDC00 then some (.pair done unit false)
    else if 0xDC00 ≤ unit ∧ unit < 0xE000 then none
    else some (.string (Char.ofNat unit :: done))
  | some h =>
    if 0xDC00 ≤ unit ∧ unit < 0xE000 then
      some (.string (Char.ofNat (0x10000 + (h - 0xD800) * 0x400 + (unit - 0xDC00)) :: done))
    else none

/-- The character that a letter after a backslash stands for. -/
def escaped? (c : Char) : Option Char :=
  if c = '"' ∨ c = '\\' ∨ c = '/' then some c
  else if c = 'b' then some (Char.ofNat 8)
  else if c = 'f' then some (Char.ofNat 12)
  else if c = 'n' then some '\n'
  else if c = 'r' then some '\r'
  else if c = 't' then some '\t'
  else none

/-- One character. -/
def step (scan : Scan) (c : Char) : Option Scan :=
  match scan.mode with
  | .idle => start? scan.tokens c
  | .string done =>
    if c = '"' then some ⟨.string (String.ofList done.reverse) :: scan.tokens, .idle⟩
    else if c = '\\' then some { scan with mode := .escape done }
    else if c.toNat < 32 then none
    else some { scan with mode := .string (c :: done) }
  | .escape done =>
    if c = 'u' then some { scan with mode := .unicode done none 0 4 }
    else (escaped? c).map fun e => { scan with mode := .string (e :: done) }
  | .unicode done high value left =>
    match Text.hexDigit? c with
    | none => none
    | some d =>
      let value := 16 * value + d
      if left ≤ 1 then (afterUnit? done high value).map fun mode => { scan with mode }
      else some { scan with mode := .unicode done high value (left - 1) }
  | .pair done high marked =>
    if !marked ∧ c = '\\' then some { scan with mode := .pair done high true }
    else if marked ∧ c = 'u' then some { scan with mode := .unicode done (some high) 0 4 }
    else none
  | .number done =>
    if isNumberChar c then some { scan with mode := .number (c :: done) }
    else scan.finish?.bind (start? · c)
  | .word done =>
    if c.isAlpha then some { scan with mode := .word (c :: done) }
    else scan.finish?.bind (start? · c)

end Scan

/-- The tokens of a text. -/
def tokens? (s : List Char) : Option (List Token) :=
  ((s.foldlM Scan.step ⟨[], .idle⟩).bind Scan.finish?).map List.reverse

end DocQuery.Json
