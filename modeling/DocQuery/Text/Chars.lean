import DocQuery.Text.WordRanges

/-!
# DocQuery.Text.Chars — classes of characters and small operations on texts

Query texts, cells and file contents are Unicode; keywords and names are compared by their ASCII
case alone.  The two classes a query text is cut by are blanks (the property White_Space) and word
characters (alphabetic or numeric, the underscore and the dot).  Everything works on lists of
characters, with a wrapper where a caller holds a string.
-/

namespace DocQuery.Text

/-! ## Classes -/

/-- The characters with the Unicode property White_Space. -/
def isBlank (c : Char) : Bool :=
  let n := c.toNat
  (9 ≤ n && n ≤ 13) || n == 0x20 || n == 0x85 || n == 0xA0 || n == 0x1680 ||
    (0x2000 ≤ n && n ≤ 0x200A) || n == 0x2028 || n == 0x2029 || n == 0x202F || n == 0x205F ||
    n == 0x3000

/-- Alphabetic or numeric by Unicode's properties: ASCII directly, all else from the table. -/
def isAlphanumeric (c : Char) : Bool :=
  if c.toNat < 0x80 then c.isAlphanum
  else wordRanges.any fun r => r.1 ≤ c.toNat && c.toNat ≤ r.2

/-- The characters a word is made of: keywords are recognised only between characters that are
not of this class, so a keyword inside a name or beside a dot stays part of the name. -/
def isWordChar (c : Char) : Bool :=
  isAlphanumeric c || c == '_' || c == '.'

/-- The value of a hexadecimal digit, in either case. -/
def hexDigit? (c : Char) : Option Nat :=
  if c.isDigit then some (c.toNat - '0'.toNat)
  else if 'a' ≤ c ∧ c ≤ 'f' then some (c.toNat - 'a'.toNat + 10)
  else if 'A' ≤ c ∧ c ≤ 'F' then some (c.toNat - 'A'.toNat + 10)
  else none

/-! ## Case -/

/-- Whether two texts differ at most in the case of ASCII letters. -/
def eqIgnoreCase (s t : List Char) : Bool :=
  s.map Char.toLower == t.map Char.toLower

/-- The text with its ASCII letters in upper case. -/
def upper (s : List Char) : List Char := s.map Char.toUpper

/-- The text with its ASCII letters in lower case. -/
def lower (s : List Char) : List Char := s.map Char.toLower

/-! ## Trimming and cutting -/

/-- The text without its leading blanks. -/
def trimStart (s : List Char) : List Char := s.dropWhile isBlank

/-- The text without its trailing blanks. -/
def trimEnd (s : List Char) : List Char := (s.reverse.dropWhile isBlank).reverse

/-- The text without its leading and trailing blanks. -/
def trim (s : List Char) : List Char := trimEnd (trimStart s)

/-- Whether `s` begins with `p`, and what follows if so. -/
def afterStart? : (p s : List Char) → Option (List Char)
  | [], s => some s
  | _ :: _, [] => none
  | a :: p, b :: s => if a = b then afterStart? p s else none

/-- The parts of a text between the occurrences of one character; always at least one. -/
def splitOnChar (d : Char) : List Char → List (List Char)
  | [] => [[]]
  | c :: s =>
    if c = d then [] :: splitOnChar d s
    else match splitOnChar d s with
      | [] => [[c]]
      | part :: parts => (c :: part) :: parts

/-- The text before the first occurrence of a character and the text after it. -/
def cutAt? (d : Char) : List Char → Option (List Char × List Char)
  | [] => none
  | c :: s =>
    if c = d then some ([], s)
    else (cutAt? d s).map fun (before, after) => (c :: before, after)

/-- Each occurrence of `c` replaced by the text `t`. -/
def replaceChar (c : Char) (t : List Char) (s : List Char) : List Char :=
  s.flatMap fun a => if a = c then t else [a]

/-! ## The same for strings -/

/-- Whether two strings differ at most in the case of ASCII letters. -/
def sameName (s t : String) : Bool := eqIgnoreCase s.toList t.toList

/-- A string without its leading and trailing blanks. -/
def trimmed (s : String) : String := String.ofList (trim s.toList)

/-- The strings in order with `separator` between neighbours. -/
def joinWith (separator : String) (parts : List String) : String :=
  separator.intercalate parts

end DocQuery.Text
