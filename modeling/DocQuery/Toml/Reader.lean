import DocQuery.Toml.Scalar
import DocQuery.Toml.Text

/-!
# DocQuery.Toml.Reader — TOML documents from text

A text is read line by line: a key with its value, a header, a comment or nothing.  Values may be
nested to a fixed depth and keys be dotted so often (`depthLimit`); lists of values or lines are
never longer than the text, which bounds all loops.
-/

namespace DocQuery.Toml

/-- Computations that read the front of a text, or fail. -/
abbrev Reader := StateT (List Char) Option

namespace Reader

/-! ## Small parts -/

/-- A part read by a function of the text. -/
def of {α : Type} (read : List Char → Option (α × List Char)) : Reader α := read

/-- The next character, which stays. -/
def peek : Reader (Option Char) := do return (← get).head?

/-- One given character. -/
def exactly (c : Char) : Reader Unit := fun s =>
  match s with
  | d :: rest => if c = d then some ((), rest) else none
  | [] => none

/-- The longest run of characters of a class. -/
def span (isMember : Char → Bool) : Reader (List Char) := fun s => some (s.span isMember)

/-- Blanks within a line. -/
def blanks : Reader Unit := discard (span fun c => c == ' ' || c == '\t')

/-- A comment, if there is one. -/
def comment : Reader Unit := do
  if (← peek) == some '#' then discard (span isPrintable)

/-- The end of a line, or of the text. -/
def lineEnd : Reader Unit := fun s =>
  match s with
  | [] => some ((), [])
  | '\n' :: rest => some ((), rest)
  | '\r' :: '\n' :: rest => some ((), rest)
  | _ => none

/-- What may follow on a line that is complete. -/
def restOfLine : Reader Unit := do
  blanks
  comment
  lineEnd

/-- Blanks, comments and line ends; `bound` bounds the count of lines. -/
def gap : (bound : Nat) → Reader Unit
  | 0 => blanks
  | bound + 1 => do
    blanks
    comment
    match ← peek with
    | some '\n' | some '\r' => do
      lineEnd
      gap bound
    | _ => return ()

/-- A bound for every loop over the rest of the text. -/
def bound : Reader Nat := do return (← get).length

/-! ## Keys -/

/-- Whether a character may stand in a key without quotes. -/
def isKeyChar (c : Char) : Bool := c.isAlphanum || c == '_' || c == '-'

/-- A key without dots. -/
def simpleKey : Reader String := do
  match ← peek with
  | some '"' | some '\'' => return String.ofList (← of readShort?)
  | _ => match ← span isKeyChar with
    | [] => failure
    | name => return String.ofList name

/-- A key with blanks around it and further keys after dots; `bound` bounds their count. -/
def dottedKey : (bound : Nat) → Reader (List String)
  | 0 => failure
  | bound + 1 => do
    blanks
    let key ← simpleKey
    blanks
    if (← peek) == some '.' then
      exactly '.'
      return key :: (← dottedKey bound)
    else return [key]

/-- How deep values may be nested, and how many keys a dotted key may consist of. -/
def depthLimit : Nat := 79

/-- The front of a dotted key and its last key. -/
def key : Reader (List String × String) := do
  match (← dottedKey depthLimit).reverse with
  | last :: front => return (front.reverse, last)
  | [] => failure

/-! ## Values -/

/-- A scalar; a date may be followed by a blank and a time. -/
def scalar : Reader Toml := do
  let word ← span isScalarChar
  let rest ← get
  match rest with
  | ' ' :: c :: _ =>
    if isDate word && c.isDigit then
      exactly ' '
      let time ← span isScalarChar
      of fun s => (readScalar? (word ++ ' ' :: time)).map (·, s)
    else of fun s => (readScalar? word).map (·, s)
  | _ => of fun s => (readScalar? word).map (·, s)

/-- The items of an array after its opening bracket; `bound` bounds their count. -/
def items (value : Reader Toml) : (bound : Nat) → Reader (List Toml)
  | 0 => failure
  | bound + 1 => do
    gap (← Reader.bound)
    if (← peek) == some ']' then
      exactly ']'
      return []
    let item ← value
    gap (← Reader.bound)
    if (← peek) == some ',' then
      exactly ','
      return item :: (← items value bound)
    else
      exactly ']'
      return [item]

/-- A key with its value. -/
def entry (value : Reader Toml) : Reader ((List String × String) × Toml) := do
  let k ← key
  exactly '='
  blanks
  return (k, ← value)

/-- The entries of a table between braces from its first key on; `bound` bounds their count. -/
def entries (value : Reader Toml) : (bound : Nat) → Reader (List ((List String × String) × Toml))
  | 0 => failure
  | bound + 1 => do
    let e ← entry value
    blanks
    if (← peek) == some ',' then
      exactly ','
      return e :: (← entries value bound)
    else
      exactly '\x7d'
      return [e]

/-- The table that entries between braces make. -/
def tableOf? (found : List ((List String × String) × Toml)) : Option Toml :=
  (found.foldlM (fun (es : Entries) ((front, last), v) =>
    (insertAt front last v .header es).map Prod.snd) []).map fun es => .table .inline es

/-- An array, given how to read its items. -/
def array (value : Reader Toml) : Reader Toml := do
  exactly '['
  return .array (← items value (← bound))

/-- A table between braces, given how to read its values. -/
def inlineTable (value : Reader Toml) : Reader Toml := do
  exactly '\x7b'
  blanks
  if (← peek) == some '\x7d' then
    exactly '\x7d'
    return .table .inline []
  let found ← entries value (← bound)
  of fun s => (tableOf? found).map (·, s)

/-- A value with at most `depth` arrays and tables between braces around any part of it. -/
def value (depth : Nat) : Reader Toml := do
  match (← peek), depth with
  | some '"', _ | some '\'', _ => return .string (String.ofList (← of readString?))
  | some '[', depth + 1 => array (value depth)
  | some '\x7b', depth + 1 => inlineTable (value depth)
  | _, _ => scalar

/-! ## Documents -/

/-- A header: its keys, and whether it is one of an array of tables. -/
def header : Reader (List String × String × Bool) := do
  exactly '['
  let double := (← peek) == some '['
  if double then exactly '['
  let (front, last) ← key
  exactly ']'
  if double then exactly ']'
  return (front, last, double)

/-- What has been read: the path of the last header, and the entries of the document. -/
structure Progress where
  path : List String := []
  document : Entries := []

/-- The progress after a change of the table at a path. -/
def Progress.change (p : Progress) (at? : List String) (change : Change) (path : List String) :
    Option Progress :=
  (within false at? change .header p.document).map fun (_, es) => ⟨path, es⟩

/-- One line. -/
def line (p : Progress) : Reader Progress := do
  blanks
  match ← peek with
  | none | some '#' | some '\n' | some '\r' => do
    restOfLine
    return p
  | some '[' => do
    let (front, last, double) ← header
    restOfLine
    let change := if double then addTable last else openTable last
    of fun s => (p.change front change (front ++ [last])).map (·, s)
  | _ => do
    let ((front, last), v) ← entry (value depthLimit)
    restOfLine
    of fun s => (p.change p.path (insertAt front last v) p.path).map (·, s)

/-- All lines; `bound` bounds their count. -/
def lines : (bound : Nat) → Progress → Reader Progress
  | 0, p => return p
  | bound + 1, p => do
    if (← get).isEmpty then return p
    lines bound (← line p)

end Reader

/-- The entries of the document that a text is. -/
def read? (text : List Char) : Option Entries :=
  let text := match text with
    | '\ufeff' :: rest => rest
    | _ => text
  ((Reader.lines text.length {}).run text).map (·.1.document)

end DocQuery.Toml
