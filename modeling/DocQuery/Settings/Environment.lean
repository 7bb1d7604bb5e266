import DocQuery.Text.Chars

/-!
# DocQuery.Settings.Environment — variables, and files that set them

A file of variables has one assignment on a line; a quoted value may go on over several lines.
Reading it sets the variables that are not set yet, from the first line to the first that is
malformed.  A value may refer to variables by a dollar sign, and sees those that the lines before it
have set.
-/

namespace DocQuery

/-- The variables that are set. -/
abbrev Environment := List (String × String)

namespace Environment

/-! ## Lines -/

/-- What the end of a line depends on. -/
inductive LineMode where
  /-- Outside of quotes. -/
  | plain
  /-- After a blank outside of quotes, where a comment may begin. -/
  | blank
  /-- After a backslash outside of quotes. -/
  | escape
  /-- Within quotes of a kind. -/
  | quoted (quote : Char)
  /-- After a backslash within quotes. -/
  | quotedEscape (quote : Char)
deriving DecidableEq

/-- The mode after a character that may begin something. -/
def LineMode.starting (c : Char) (otherwise : LineMode) : LineMode :=
  if c = '\\' then .escape
  else if c = '"' ∨ c = '\'' then .quoted c
  else otherwise

/-- The mode after one more character. -/
def LineMode.next (mode : LineMode) (c : Char) : LineMode :=
  match mode with
  | .plain => if Text.isBlank c ∧ c ≠ '\n' ∧ c ≠ '\r' then .blank else .starting c .plain
  | .blank => .starting c .plain
  | .escape => .plain
  | .quoted q => if c = '\\' then .quotedEscape q else if c = q then .plain else .quoted q
  | .quotedEscape q => .quoted q

/-- The state of cutting a text into lines: the lines so far, last first, the characters of the
line, last first, the mode, and whether the rest of the line is a comment. -/
structure Cutting where
  lines : List (List Char) := []
  chars : List Char := []
  mode : LineMode := .plain
  comment : Bool := false

/-- Whether the line in progress is a comment from its first character on. -/
def isComment (chars : List Char) : Bool := (Text.trimStart chars.reverse).head? == some '#'

/-- A line ends here. -/
def Cutting.endLine (s : Cutting) (chars : List Char) : Cutting :=
  { lines := chars.reverse :: s.lines }

/-- One character. -/
def Cutting.step (s : Cutting) (c : Char) : Cutting :=
  let mode := s.mode.next c
  if s.comment then if c = '\n' then s.endLine s.chars else s
  else if s.mode = .blank ∧ c = '#' then { s with comment := true }
  else if c = '\n' then
    if mode = .plain then s.endLine s.chars
    else if isComment s.chars then s.endLine []
    else { s with chars := c :: s.chars, mode := mode }
  else { s with chars := c :: s.chars, mode := mode }

/-- The lines of a text, and whether the last one is complete.  At the end of the text a line must
not be within quotes, after a backslash or after a blank.  -/
def linesOf (text : List Char) : List (List Char) × Bool :=
  let s := text.foldl Cutting.step {}
  if s.chars = [] ∧ !s.comment then (s.lines.reverse, true)
  else if s.comment ∨ s.mode = .plain ∨ isComment s.chars then
    ((s.chars.reverse :: s.lines).reverse, true)
  else (s.lines.reverse, false)

/-! ## Values -/

/-- What a value is doing. -/
inductive ValueMode where
  /-- Outside of quotes. -/
  | plain
  /-- Within double quotes. -/
  | quoted
  /-- Within single quotes. -/
  | literal
  /-- After a backslash, within double quotes or not. -/
  | escape (quoted : Bool)
  /-- Within the name of a variable after a dollar sign, last character first. -/
  | variable (quoted : Bool) (name : List Char)
  /-- Within the name of a variable in braces, last character first. -/
  | braced (quoted : Bool) (name : List Char)
  /-- After the value, where only blanks and a comment may follow. -/
  | after
  /-- Within a comment after the value. -/
  | comment

/-- The value of a variable with a name given last character first; nothing if it is not set. -/
def valueOf (env : Environment) (name : List Char) : List Char :=
  ((env.lookup (String.ofList name.reverse)).getD "").toList

/-- The mode that quotes or their absence stand for. -/
def ValueMode.within (quoted : Bool) : ValueMode := if quoted then .quoted else .plain

/-- The characters of a value so far, last first, and the mode, after one more character. -/
def valueStep (env : Environment) (state : List Char × ValueMode) (c : Char) :
    Option (List Char × ValueMode) :=
  let (done, mode) := state
  match mode with
  | .plain =>
    if c = '$' then some (done, .variable false [])
    else if c = '\'' then some (done, .literal)
    else if c = '"' then some (done, .quoted)
    else if c = '\\' then some (done, .escape false)
    else if c = ' ' ∨ c = '\t' then some (done, .after)
    else some (c :: done, .plain)
  | .quoted =>
    if c = '$' then some (done, .variable true [])
    else if c = '"' then some (done, .plain)
    else if c = '\\' then some (done, .escape true)
    else some (c :: done, .quoted)
  | .literal => if c = '\'' then some (done, .plain) else some (c :: done, .literal)
  | .escape quoted =>
    if c = 'n' then some ('\n' :: done, .within quoted)
    else if ['\\', '\'', '"', '$', ' '].contains c then some (c :: done, .within quoted)
    else none
  | .variable quoted name =>
    if Text.isAlphanumeric c then some (done, .variable quoted (c :: name))
    else if c = '\x7b' ∧ name = [] then some (done, .braced quoted [])
    else
      let done := (valueOf env name).reverse ++ done
      if c = '$' then some (done, .variable quoted []) else some (c :: done, .within quoted)
  | .braced quoted name =>
    if c = '\x7d' then some ((valueOf env name).reverse ++ done, .within quoted)
    else some (done, .braced quoted (c :: name))
  | .after =>
    if c = ' ' ∨ c = '\t' then some (done, .after)
    else if c = '#' then some (done, .comment)
    else none
  | .comment => some (done, .comment)

/-- The value that a text stands for. -/
def readValue? (env : Environment) (text : List Char) : Option String :=
  match text.foldlM (valueStep env) ([], .plain) with
  | some (_, .quoted) | some (_, .literal) | some (_, .escape true) | some (_, .braced ..)
  | some (_, .variable true _) => none
  | some (done, .variable false name) =>
    some (String.ofList (done.reverse ++ valueOf env name))
  | some (done, _) => some (String.ofList done.reverse)
  | none => none

/-! ## Assignments -/

/-- Whether a character may be part of the name of a variable. -/
def isNameChar (c : Char) : Bool := c.isAlphanum || c == '_' || c == '.'

/-- The name at the front of a text, and the text after it and after blanks. -/
def readName? (text : List Char) : Option (List Char × List Char) :=
  match text with
  | [] => none
  | c :: _ =>
    if c.isAlpha || c == '_' then
      let (name, rest) := text.span isNameChar
      some (name, Text.trimStart rest)
    else none

/-- The text after an equals sign, blanks left out. -/
def afterEquals? : List Char → Option (List Char)
  | '=' :: rest => some (Text.trimStart rest)
  | _ => none

/-- The name of a line and the text of its value.  The word `export` may stand in front of the name.
-/
def splitAssignment? (line : List Char) : Option (List Char × List Char) :=
  (readName? line).bind fun (name, rest) =>
    match afterEquals? rest with
    | some value => some (name, value)
    | none =>
      if name = "export".toList then
        (readName? rest).bind fun (name, rest) => (afterEquals? rest).map (name, ·)
      else none

/-- The variables after a line, or nothing if the line is malformed.  A variable that is set keeps
its value.  -/
def addLine? (env : Environment) (line : List Char) : Option Environment :=
  let line := Text.trim line
  if line = [] ∨ line.head? = some '#' then some env
  else (splitAssignment? line).bind fun (name, text) =>
    let name := String.ofList name
    let value := if text = [] ∨ text.head? = some '#' then some "" else readValue? env text
    value.map fun v => if (env.lookup name).isSome then env else env ++ [(name, v)]

/-- The variables after lines, up to the first malformed one. -/
def addLines (env : Environment) : List (List Char) → Environment
  | [] => env
  | line :: rest => match addLine? env line with
    | some env => addLines env rest
    | none => env

/-- The words of a text that may be names of variables. -/
def words (text : List Char) : List String :=
  ((text.splitBy fun c d => isNameChar c == isNameChar d).filter fun w => w.all isNameChar).map
    String.ofList

/-- The variables after a file of variables. -/
def load (env : Environment) (text : List Char) : Environment :=
  let text := match text with
    | '\ufeff' :: rest => rest
    | _ => text
  addLines env (linesOf text).1

end Environment

end DocQuery
