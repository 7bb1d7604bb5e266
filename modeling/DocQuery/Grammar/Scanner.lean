import DocQuery.Error
import DocQuery.Text.Chars

/-!
# DocQuery.Grammar.Scanner — quotes and parentheses in query texts

A query text is cut at keywords and delimiters that stand outside of quotes and parentheses.  The
scanner keeps track of both while it walks a text; a place is at top level when no quote and no
parenthesis is open.  Everything here works on the top level alone, so arguments, subqueries and
literals never split the clause that holds them.
-/

namespace DocQuery.Grammar

/-! ## The scanner -/

/-- What is open at a place of a text. -/
structure Scanner where
  /-- How many parentheses are open. -/
  depth : Nat := 0
  /-- The character that closes the quote that is open. -/
  closing : Option Char := none
  /-- Whether the next character of a quote is taken as it is. -/
  escaped : Bool := false
  /-- Whether a parenthesis was closed that was not open. -/
  unbalanced : Bool := false
deriving DecidableEq

namespace Scanner

/-- Whether no quote and no parenthesis is open. -/
def isTopLevel (s : Scanner) : Bool := s.depth == 0 && s.closing.isNone

/-- The character that closes the quote which a character opens. -/
def closer? (c : Char) : Option Char :=
  if c = '\'' ∨ c = '"' ∨ c = '\x60' then some c
  else if c = '[' then some ']'
  else none

/-- The state after one more character.  A backslash within a quote, other than one in brackets,
takes the next character as it is.  -/
def step (s : Scanner) (c : Char) : Scanner :=
  match s.closing with
  | some closing =>
    if s.escaped then { s with escaped := false }
    else if c = '\\' ∧ closing ≠ ']' then { s with escaped := true }
    else if c = closing then { s with closing := none }
    else s
  | none =>
    if c = '(' then { s with depth := s.depth + 1 }
    else if c = ')' then
      if s.depth = 0 then { s with unbalanced := true } else { s with depth := s.depth - 1 }
    else { s with closing := closer? c }

/-- The state after a text. -/
def run (s : Scanner) (text : List Char) : Scanner := text.foldl step s

end Scanner

/-! ## Blanks -/

/-- The text with every run of blanks outside of quotes made one space and none at its ends, and the
state after it.  `started` tells whether something was kept before, `pending` whether a space is
due.  -/
def collapse (s : Scanner) (started pending : Bool) : List Char → List Char × Scanner
  | [] => ([], s)
  | c :: text =>
    if s.closing.isNone && Text.isBlank c then collapse s started started text
    else
      let (kept, last) := collapse (s.step c) true false text
      (if pending then ' ' :: c :: kept else c :: kept, last)

/-- The text with blanks outside of quotes collapsed; an error if a quote is left open or the
parentheses do not match. -/
def normalize (text : List Char) : Except QueryError (List Char) :=
  let (kept, last) := collapse {} false false text
  let shown := String.ofList (Text.trim text)
  if last.closing.isSome then .error (.unterminatedQuote shown)
  else if last.unbalanced || last.depth != 0 then .error (.unbalancedParentheses shown)
  else .ok kept

/-! ## Finding -/

/-- What follows a pattern that the text begins with, in any case. -/
def afterPattern? : (pattern text : List Char) → Option (List Char)
  | [], text => some text
  | _ :: _, [] => none
  | p :: pattern, c :: text => if p.toLower = c.toLower then afterPattern? pattern text else none

/-- Whether a character is there and belongs to a word. -/
def touchesWord (c : Option Char) : Bool := c.any Text.isWordChar

/-- What follows a keyword that the text begins with, in any case and as a whole word; `before` is
the character in front of the text. -/
def afterKeyword? (keyword : List Char) (before : Option Char) (text : List Char) :
    Option (List Char) :=
  if touchesWord before then none
  else (afterPattern? keyword text).filter fun rest => !touchesWord rest.head?

/-- The first place at top level where a test succeeds: the text before it, what the test gave, and
the text that the test left.  The test sees the character in front and the text from the place on.
-/
def findTop? {α : Type} (test : Option Char → List Char → Option (α × List Char)) (s : Scanner)
    (before : Option Char) : List Char → Option (List Char × α × List Char)
  | [] => none
  | c :: text =>
    match if s.isTopLevel then test before (c :: text) else none with
    | some (found, rest) => some ([], found, rest)
    | none => (findTop? test (s.step c) (some c) text).map fun (skipped, r) => (c :: skipped, r)

/-- The text before the first occurrence of a keyword and the text after it. -/
def cutKeyword? (keyword : List Char) (before : Option Char) (text : List Char) :
    Option (List Char × List Char) :=
  (findTop? (fun b t => (afterKeyword? keyword b t).map ((), ·)) {} before text).map
    fun (skipped, _, rest) => (skipped, rest)

/-- The text before the first occurrence of a pattern and the text after it. -/
def cutPattern? (pattern text : List Char) : Option (List Char × List Char) :=
  (findTop? (fun _ t => (afterPattern? pattern t).map ((), ·)) {} none text).map
    fun (skipped, _, rest) => (skipped, rest)

/-- The first place where one of several patterns occurs; at one place the first listed wins. -/
def cutFirst? {α : Type} (patterns : List (List Char × α)) (text : List Char) :
    Option (List Char × α × List Char) :=
  findTop? (fun _ t => patterns.findSome? fun (p, a) => (afterPattern? p t).map (a, ·)) {} none text

/-- The text before the last occurrence of a keyword and the text after it. -/
def cutLastKeyword? (keyword : List Char) (s : Scanner) (before : Option Char) :
    List Char → Option (List Char × List Char)
  | [] => none
  | c :: text =>
    match cutLastKeyword? keyword (s.step c) (some c) text with
    | some (skipped, rest) => some (c :: skipped, rest)
    | none =>
      if s.isTopLevel then (afterKeyword? keyword before (c :: text)).map ([], ·) else none

/-! ## Splitting -/

/-- A character put in front of the first part. -/
def consFirst (c : Char) : List (List Char) → List (List Char)
  | [] => [[c]]
  | part :: parts => (c :: part) :: parts

/-- The parts of a text between the places where a test succeeds at top level.  The test gives what
follows the delimiter; the characters of the delimiter are walked over without being kept, which
`skip` counts.  -/
def splitTop (test : Option Char → List Char → Option (List Char)) (s : Scanner) :
    (skip : Nat) → (before : Option Char) → List Char → List (List Char)
  | _, _, [] => [[]]
  | skip + 1, _, c :: text => splitTop test (s.step c) skip (some c) text
  | 0, before, c :: text =>
    match if s.isTopLevel then test before (c :: text) else none with
    | some rest => [] :: splitTop test (s.step c) (text.length - rest.length) (some c) text
    | none => consFirst c (splitTop test (s.step c) 0 (some c) text)

/-- The parts between the occurrences of a delimiter, trimmed, empty ones left out. -/
def splitOn (delimiter text : List Char) : List (List Char) :=
  ((splitTop (fun _ t => afterPattern? delimiter t) {} 0 none text).map Text.trim).filter (· ≠ [])

/-- The parts between the occurrences of a keyword. -/
def splitKeyword (keyword text : List Char) : List (List Char) :=
  splitTop (afterKeyword? keyword) {} 0 none text

/-! ## Parentheses -/

/-- The text up to the parenthesis that brings the scanner back to top level, and the text after it.
-/
def closeParenthesis? (s : Scanner) : List Char → Option (List Char × List Char)
  | [] => none
  | c :: text =>
    let next := s.step c
    if c = ')' ∧ next.isTopLevel then some ([], text)
    else (closeParenthesis? next text).map fun (inside, rest) => (c :: inside, rest)

/-- The inside of the parentheses that a text begins with, and the text after them. -/
def parenthesized? : List Char → Option (List Char × List Char)
  | '(' :: text => closeParenthesis? { depth := 1 } text
  | _ => none

/-- The inside of one pair of parentheses around the whole text. -/
def unwrap? (text : List Char) : Option (List Char) :=
  match parenthesized? (Text.trim text) with
  | some (inside, []) => some (Text.trim inside)
  | _ => none

/-! ## Words -/

/-- What follows a keyword and a space that a text begins with. -/
def afterWord? (keyword text : List Char) : Option (List Char) :=
  match afterPattern? keyword text with
  | some (' ' :: rest) => some (Text.trim (' ' :: rest))
  | _ => none

/-- The text before the last space and the text after it. -/
def cutLastSpace? (text : List Char) : Option (List Char × List Char) :=
  match Text.cutAt? ' ' text.reverse with
  | some (after, before) => some (before.reverse, after.reverse)
  | none => none

/-! ## Identifiers -/

/-- Whether a text stands between one opening and one closing character. -/
def isDelimited (opening closing : Char) (text : List Char) : Bool :=
  2 ≤ text.length && text.head? == some opening && text.getLast? == some closing

/-- Whether a text is an identifier in quotes, backquotes or brackets. -/
def isQuotedName (text : List Char) : Bool :=
  isDelimited '"' '"' text || isDelimited '\x60' '\x60' text || isDelimited '[' ']' text

/-- An identifier without the quotes around it. -/
def unquoteName (text : List Char) : List Char :=
  let text := Text.trim text
  if isQuotedName text then (text.drop 1).dropLast else text

/-- An item without its alias, and the alias: the single name after the last AS. -/
def splitAlias (text : List Char) : List Char × Option (List Char) :=
  match cutLastKeyword? ['A', 'S'] {} none text with
  | some (before, after) =>
    let aliasName := Text.trim after
    if before = [] ∨ aliasName = [] ∨ (aliasName.contains ' ' ∧ ¬isQuotedName aliasName) then
      (text, none)
    else (Text.trim before, some (unquoteName aliasName))
  | none => (text, none)

end DocQuery.Grammar
