import DocQuery.Json.Basic
import DocQuery.Text.Chars

/-!
# DocQuery.Json.Writer — documents as text

The compact text has no blanks at all; the spread text gives every item and member a line of its
own, two blanks further in than its container, and leaves empty containers on one line.  Strings
escape the quote, the backslash and the control characters below U+0020, and nothing else.
-/

namespace DocQuery.Json

/-! ## Strings -/

/-- A digit of a number below sixteen. -/
def hexDigit (n : Nat) : Char :=
  if n < 10 then Char.ofNat ('0'.toNat + n) else Char.ofNat ('a'.toNat + (n - 10))

/-- A character as it stands within a string. -/
def escapeChar (c : Char) : List Char :=
  if c = '"' then ['\\', '"']
  else if c = '\\' then ['\\', '\\']
  else if c = '\n' then ['\\', 'n']
  else if c = '\r' then ['\\', 'r']
  else if c = '\t' then ['\\', 't']
  else if c.toNat = 8 then ['\\', 'b']
  else if c.toNat = 12 then ['\\', 'f']
  else if c.toNat < 32 then ['\\', 'u', '0', '0', hexDigit (c.toNat / 16), hexDigit (c.toNat % 16)]
  else [c]

/-- A string between quotes. -/
def writeString (s : String) : List Char := '"' :: (s.toList.flatMap escapeChar ++ ['"'])

/-! ## Compact text -/

/-- Texts with a comma between neighbours. -/
def commaSeparated (parts : List (List Char)) : List Char := (parts.intersperse [',']).flatten

mutual

/-- The compact text of a document. -/
def write : Json → List Char
  | .null => "null".toList
  | .bool b => if b then "true".toList else "false".toList
  | .number n => n.write
  | .string s => writeString s
  | .array items => '[' :: (commaSeparated (writeItems items) ++ [']'])
  | .object members => '\x7b' :: (commaSeparated (writeMembers members) ++ ['\x7d'])

/-- The compact texts of the items of an array. -/
def writeItems : List Json → List (List Char)
  | [] => []
  | item :: rest => write item :: writeItems rest

/-- The compact texts of the members of an object. -/
def writeMembers : List (String × Json) → List (List Char)
  | [] => []
  | (k, v) :: rest => (writeString k ++ ':' :: write v) :: writeMembers rest

end

/-- The compact text of a document. -/
def text (j : Json) : String := String.ofList j.write

/-! ## Spread text -/

/-- A new line and the blanks of a depth. -/
def newLine (depth : Nat) : List Char := '\n' :: List.replicate (2 * depth) ' '

/-- The parts of a container, each on a line one deeper than the container. -/
def spreadLines (depth : Nat) (parts : List (List Char)) : List Char :=
  ((parts.map (newLine (depth + 1) ++ ·)).intersperse [',']).flatten ++ newLine depth

mutual

/-- The spread text of a document that stands at a depth. -/
def spread (depth : Nat) : Json → List Char
  | .array [] => ['[', ']']
  | .array (item :: items) =>
    '[' :: (spreadLines depth (spread (depth + 1) item :: spreadItems (depth + 1) items) ++ [']'])
  | .object [] => ['\x7b', '\x7d']
  | .object ((k, v) :: members) =>
    '\x7b' :: (spreadLines depth
      ((writeString k ++ ':' :: ' ' :: spread (depth + 1) v) ::
        spreadMembers (depth + 1) members) ++ ['\x7d'])
  | .null => write .null
  | .bool b => write (.bool b)
  | .number n => write (.number n)
  | .string s => write (.string s)

/-- The spread texts of items. -/
def spreadItems (depth : Nat) : List Json → List (List Char)
  | [] => []
  | item :: rest => spread depth item :: spreadItems depth rest

/-- The spread texts of members. -/
def spreadMembers (depth : Nat) : List (String × Json) → List (List Char)
  | [] => []
  | (k, v) :: rest =>
    (writeString k ++ ':' :: ' ' :: spread depth v) :: spreadMembers depth rest

end

/-- The spread text of a document. -/
def spreadText (j : Json) : String := String.ofList (spread 0 j)

end DocQuery.Json
