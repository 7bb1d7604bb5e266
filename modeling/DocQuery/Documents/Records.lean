import DocQuery.Text.Chars

/-!
# DocQuery.Documents.Records — comma separated values

A text of records has one record on a line and a comma between the fields of a record.  A field that
begins with a quote runs to the next quote that is not doubled; what follows it up to the comma
belongs to the field as well.  Lines without a character are no records.  A written field is quoted
where reading it back needs that, and a record whose text would be empty is written as a quoted
empty field.
-/

namespace DocQuery.Records

/-! ## Reading -/

/-- Where a character stands. -/
inductive Mode where
  /-- At the start of a record. -/
  | record
  /-- At the start of a field after a comma. -/
  | field
  /-- Within a field, after its first character or after its quoted part. -/
  | plain
  /-- Within quotes. -/
  | quoted
  /-- After a quote within quotes. -/
  | quote
deriving DecidableEq

/-- The state of reading: records, fields of the record, and characters of the field, each last
first. -/
structure Scan where
  records : List (List (List Char)) := []
  fields : List (List Char) := []
  chars : List Char := []
  mode : Mode := .record

namespace Scan

/-- The field ends here and another one follows. -/
def endField (s : Scan) : Scan :=
  { s with fields := s.chars.reverse :: s.fields, chars := [], mode := .field }

/-- The record ends here. -/
def endRecord (s : Scan) : Scan :=
  { records := (s.chars.reverse :: s.fields).reverse :: s.records }

/-- The field goes on with a character. -/
def push (s : Scan) (c : Char) (mode : Mode) : Scan :=
  { s with chars := c :: s.chars, mode := mode }

/-- A character outside of quotes. -/
def unquoted (s : Scan) (c : Char) : Scan :=
  if c = ',' then s.endField
  else if c = '\n' ∨ c = '\r' then s.endRecord
  else s.push c .plain

/-- A character at the start of a field. -/
def first (s : Scan) (c : Char) : Scan :=
  if c = '"' then { s with mode := .quoted } else s.unquoted c

/-- One character. -/
def step (s : Scan) (c : Char) : Scan :=
  match s.mode with
  | .record => if c = '\n' ∨ c = '\r' then s else s.first c
  | .field => s.first c
  | .plain => s.unquoted c
  | .quoted => if c = '"' then { s with mode := .quote } else s.push c .quoted
  | .quote => if c = '"' then s.push c .quoted else s.unquoted c

/-- All records at the end of the text, which also ends the record in progress. -/
def finish (s : Scan) : List (List (List Char)) :=
  match s.mode with
  | .record => s.records.reverse
  | _ => s.endRecord.records.reverse

end Scan

/-- The records of a text; a byte order mark in front of it is passed over. -/
def read (text : List Char) : List (List (List Char)) :=
  let text := match text with
    | '\ufeff' :: rest => rest
    | _ => text
  (text.foldl Scan.step {}).finish

/-! ## Writing -/

/-- Whether a field must be quoted to be read back. -/
def needsQuotes (field : List Char) : Bool :=
  field.any fun c => c == ',' || c == '"' || c == '\n' || c == '\r'

/-- The text of a field. -/
def writeField (field : List Char) : List Char :=
  if needsQuotes field then '"' :: (Text.replaceChar '"' ['"', '"'] field ++ ['"']) else field

/-- The text of a record with the end of its line. -/
def writeRecord (fields : List (List Char)) : List Char :=
  let line := ((fields.map writeField).intersperse [',']).flatten
  (if line = [] then ['"', '"'] else line) ++ ['\n']

end DocQuery.Records
