import DocQuery.Documents.Records
import DocQuery.Json.Writer
import DocQuery.Output.Emphasis
import DocQuery.Output.Format

/-!
# DocQuery.Output.Layout — results as text

In a table every column is as wide as its label and its widest cell, counted in characters.  As JSON
each row is an object with the labels for keys; where labels are equal, the object has one member,
in the place of the first column and with the value of the last.  As comma separated values every
row must have as many cells as there are labels.
-/

namespace DocQuery.Output

/-! ## Tables -/

/-- A value as a cell of a table. -/
def tableCell (v : Value) : List Char :=
  if v.isNull then "NULL".toList else v.display.toList

/-- A text with blanks after it up to a width. -/
def pad (width : Nat) (text : List Char) : List Char :=
  text ++ List.replicate (width - text.length) ' '

/-- Widths made so wide that the cells of a row fit; cells beyond the last width are not looked at.
-/
def widen : (widths : List Nat) → (cells : List (List Char)) → List Nat
  | w :: ws, c :: cs => max w c.length :: widen ws cs
  | ws, _ => ws

/-- Parts with a separator between neighbours, and the end of the line. -/
def lineOf (separator : String) (parts : List (List Char)) : List Char :=
  (parts.intersperse separator.toList).flatten ++ ['\n']

/-- A cell of a row as it is shown, in its style if styles are shown. -/
def showCell (styled : Bool) (row : Row) (place width : Nat) (cell : List Char) : List Char :=
  match if styled then row.style? place else none with
  | some style => Emphasis.apply style (pad width cell)
  | none => pad width cell

/-- The cells of a row as they are shown from a place on; cells beyond the last width are left out.
-/
def showCells (styled : Bool) (row : Row) : (place : Nat) → (widths : List Nat) →
    (cells : List (List Char)) → List (List Char)
  | place, w :: ws, c :: cs =>
    showCell styled row place w c :: showCells styled row (place + 1) ws cs
  | _, _, _ => []

/-- A label as it is shown. -/
def showLabel (styled : Bool) (width : Nat) (label : List Char) : List Char :=
  let padded := pad width label
  if styled then Emphasis.apply { bold := true } padded else padded

/-- The table of rows under labels. -/
def table (styled : Bool) (labels : List String) (rows : List Row) : String :=
  let labels := labels.map String.toList
  let cells := rows.map fun row => row.values.map tableCell
  let widths := cells.foldl widen (labels.map List.length)
  let head := lineOf " | " (List.zipWith (showLabel styled) widths labels)
  let rule := lineOf "-+-" (widths.map (List.replicate · '-'))
  let lines := List.zipWith
    (fun row cells => lineOf " | " (showCells styled row 0 widths cells)) rows cells
  String.ofList (head ++ rule ++ lines.flatten)

/-! ## Documents -/

/-- The object of a row under labels. -/
def objectOf (labels : List String) (row : Row) : Json :=
  .object ((labels.zip row.values).foldl
    (fun members (label, v) => Json.insertMember members label v.toJson) [])

/-- The array of rows under labels, on several lines. -/
def documents (labels : List String) (rows : List Row) : String :=
  (Json.array (rows.map (objectOf labels))).spreadText ++ "\n"

/-! ## Comma separated values -/

/-- A value as a field: nothing for null. -/
def field (v : Value) : List Char := if v.isNull then [] else v.display.toList

/-- The records of rows under labels. -/
def records (labels : List String) (rows : List Row) : Except Failure String :=
  if rows.all fun row => row.values.length == labels.length then
    .ok (String.ofList (Records.writeRecord (labels.map String.toList) ++
      (rows.map fun row => Records.writeRecord (row.values.map field)).flatten))
  else .error .malformedRecords

/-! ## All formats -/

/-- Rows under labels in a format. -/
def write (styled : Bool) (format : OutputFormat) (labels : List String) (rows : List Row) :
    Except Failure String :=
  match format with
  | .table => .ok (table styled labels rows)
  | .json => .ok (documents labels rows)
  | .records => records labels rows

end DocQuery.Output
