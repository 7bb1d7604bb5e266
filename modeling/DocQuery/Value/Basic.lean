import DocQuery.Json.Writer
import DocQuery.Number.Basic
import DocQuery.Time.Moment

/-!
# DocQuery.Value.Basic — the values of cells

A cell holds nothing, a boolean, a number, a text, a moment or a nested document.  Here are the
three texts of a value (as a cell shows it, as a literal of a query, as a document) and the way to
and from documents.
-/

namespace DocQuery

/-- The value of a cell. -/
inductive Value where
  | null
  | boolean (b : Bool)
  | number (n : Number)
  | text (s : String)
  | temporal (m : Moment)
  | nested (document : Json)
deriving Inhabited

namespace Value

/-- An integer as a value. -/
def integer (i : Int64) : Value := .number (.integer i)

/-- A double precision number as a value. -/
def float (x : Binary64) : Value := .number (.float x)

/-- Whether the value is missing. -/
def isNull : Value → Bool
  | .null => true
  | _ => false

/-- Whether the value is a number. -/
def isNumber : Value → Bool
  | .number _ => true
  | _ => false

/-- The number in double precision, if the value is a number. -/
def toBinary64? : Value → Option Binary64
  | .number n => some n.toBinary64
  | _ => none

/-- The text, if the value is one. -/
def toText? : Value → Option String
  | .text s => some s
  | _ => none

/-! ## Texts -/

/-- The value as a cell shows it. -/
def display : Value → String
  | .null => "null"
  | .boolean b => if b then "true" else "false"
  | .number n => n.text
  | .text s => s
  | .temporal m => m.text
  | .nested j => j.text

/-- A text between single quotes, with a backslash before each quote in it. -/
def quoted (s : String) : String :=
  String.ofList ('\'' :: (Text.replaceChar '\'' ['\\', '\''] s.toList ++ ['\'']))

/-- The value as a literal of a query. -/
def literal : Value → String
  | .null => "NULL"
  | .boolean b => if b then "TRUE" else "FALSE"
  | .number n => n.literal
  | .text s => quoted s
  | .temporal m => quoted m.text
  | .nested j => quoted j.text

/-! ## Documents -/

/-- The value of a document: scalars become values of their kind, where an integer beyond 64 signed
bits becomes a double; containers are nested as they are. -/
def ofJson : Json → Value
  | .null => .null
  | .bool b => .boolean b
  | .number n => match n.toInt64? with
    | some i => .integer i
    | none => .float n.toBinary64
  | .string s => .text s
  | j => .nested j

/-- The document of a value: a number that is not finite is null, a moment is its text. -/
def toJson : Value → Json
  | .null => .null
  | .boolean b => .bool b
  | .number (.integer i) => .number (.ofInt64 i)
  | .number (.float x) => ((JsonNumber.ofBinary64? x).map Json.number).getD .null
  | .text s => .string s
  | .temporal m => .string m.documentText
  | .nested j => j

end Value

end DocQuery
