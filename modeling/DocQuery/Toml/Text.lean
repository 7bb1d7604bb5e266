import DocQuery.Text.Chars

/-!
# DocQuery.Toml.Text — the strings of TOML

A string stands between single or double quotes, one or three of them.  Between double quotes a
backslash begins an escape; between three of them it may also end a line, and then the blanks and
line ends that follow are left out.  Each reader takes the text after the opening quotes and gives
the characters of the string and the text after the closing quotes.
-/

namespace DocQuery.Toml

/-- Whether a character may stand in a string or a comment: no control character except the tab. -/
def isPrintable (c : Char) : Bool := c == '\t' || (32 ≤ c.toNat && c.toNat != 127)

/-! ## Escapes -/

/-- The character with a code in hexadecimal digits. -/
def ofHex? (digits : List Char) : Option Char :=
  (digits.foldlM (fun n d => (Text.hexDigit? d).map (16 * n + ·)) 0).bind fun n =>
    if n.isValidChar then some (Char.ofNat n) else none

/-- The character that a letter after a backslash stands for. -/
def escaped? (c : Char) : Option Char :=
  if c = '"' ∨ c = '\\' then some c
  else if c = 'b' then some (Char.ofNat 8)
  else if c = 'f' then some (Char.ofNat 12)
  else if c = 'n' then some '\n'
  else if c = 'r' then some '\r'
  else if c = 't' then some '\t'
  else none

/-- A string and the text after it, with a character more in front of the string. -/
def prepend (c : Char) (read : Option (List Char × List Char)) : Option (List Char × List Char) :=
  read.map fun (s, rest) => (c :: s, rest)

/-- A string and the text after it, with an escaped character in front of the string. -/
def prependEscaped (c : Option Char) (read : Option (List Char × List Char)) :
    Option (List Char × List Char) :=
  c.bind (prepend · read)

/-! ## Strings on one line -/

/-- A string between single quotes. -/
def readLiteral : List Char → Option (List Char × List Char)
  | [] => none
  | '\'' :: rest => some ([], rest)
  | c :: rest => if isPrintable c then prepend c (readLiteral rest) else none

/-- A string between double quotes. -/
def readBasic : List Char → Option (List Char × List Char)
  | [] => none
  | '"' :: rest => some ([], rest)
  | '\\' :: 'u' :: a :: b :: c :: d :: rest => prependEscaped (ofHex? [a, b, c, d]) (readBasic rest)
  | '\\' :: 'U' :: a :: b :: c :: d :: e :: f :: g :: h :: rest =>
    prependEscaped (ofHex? [a, b, c, d, e, f, g, h]) (readBasic rest)
  | '\\' :: c :: rest => prependEscaped (escaped? c) (readBasic rest)
  | c :: rest => if isPrintable c && c != '\\' then prepend c (readBasic rest) else none

/-! ## Strings on several lines -/

/-- A string between three single quotes, which may end in up to two single quotes. -/
def readLongLiteral : List Char → Option (List Char × List Char)
  | [] => none
  | '\'' :: '\'' :: '\'' :: '\'' :: '\'' :: rest => some (['\'', '\''], rest)
  | '\'' :: '\'' :: '\'' :: '\'' :: rest => some (['\''], rest)
  | '\'' :: '\'' :: '\'' :: rest => some ([], rest)
  | '\r' :: '\n' :: rest => prepend '\n' (readLongLiteral rest)
  | c :: rest => if isPrintable c || c == '\n' then prepend c (readLongLiteral rest) else none

/-- What a string between three double quotes is doing. -/
inductive Gap where
  /-- Taking characters. -/
  | none
  /-- After a backslash and blanks that must lead to the end of the line. -/
  | line
  /-- Leaving out blanks and line ends. -/
  | blank
deriving DecidableEq

/-- A string between three double quotes, which may end in up to two double quotes. -/
def readLongBasic : Gap → List Char → Option (List Char × List Char)
  | _, [] => none
  | .line, '\n' :: rest => readLongBasic .blank rest
  | .line, '\r' :: '\n' :: rest => readLongBasic .blank rest
  | .line, c :: rest => if c = ' ' ∨ c = '\t' then readLongBasic .line rest else none
  | .blank, '\n' :: rest => readLongBasic .blank rest
  | .blank, '\r' :: '\n' :: rest => readLongBasic .blank rest
  | .blank, ' ' :: rest => readLongBasic .blank rest
  | .blank, '\t' :: rest => readLongBasic .blank rest
  | _, '"' :: '"' :: '"' :: '"' :: '"' :: rest => some (['"', '"'], rest)
  | _, '"' :: '"' :: '"' :: '"' :: rest => some (['"'], rest)
  | _, '"' :: '"' :: '"' :: rest => some ([], rest)
  | _, '\\' :: 'u' :: a :: b :: c :: d :: rest =>
    prependEscaped (ofHex? [a, b, c, d]) (readLongBasic .none rest)
  | _, '\\' :: 'U' :: a :: b :: c :: d :: e :: f :: g :: h :: rest =>
    prependEscaped (ofHex? [a, b, c, d, e, f, g, h]) (readLongBasic .none rest)
  | _, '\\' :: '\n' :: rest => readLongBasic .blank rest
  | _, '\\' :: '\r' :: '\n' :: rest => readLongBasic .blank rest
  | _, '\\' :: ' ' :: rest => readLongBasic .line rest
  | _, '\\' :: '\t' :: rest => readLongBasic .line rest
  | _, '\\' :: c :: rest => prependEscaped (escaped? c) (readLongBasic .none rest)
  | _, '\r' :: '\n' :: rest => prepend '\n' (readLongBasic .none rest)
  | _, c :: rest =>
    if (isPrintable c || c == '\n') && c != '\\' then prepend c (readLongBasic .none rest) else none

/-- The text after the line end that may follow three opening quotes. -/
def afterLineEnd : List Char → List Char
  | '\n' :: rest => rest
  | '\r' :: '\n' :: rest => rest
  | s => s

/-! ## All strings -/

/-- A string on one line: between single or double quotes. -/
def readShort? : List Char → Option (List Char × List Char)
  | '\'' :: rest => readLiteral rest
  | '"' :: rest => readBasic rest
  | _ => none

/-- A string of any form. -/
def readString? : List Char → Option (List Char × List Char)
  | '\'' :: '\'' :: '\'' :: rest => readLongLiteral (afterLineEnd rest)
  | '"' :: '"' :: '"' :: rest => readLongBasic .none (afterLineEnd rest)
  | s => readShort? s

end DocQuery.Toml
