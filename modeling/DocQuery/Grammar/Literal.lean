import DocQuery.Grammar.Scanner
import DocQuery.Value.Conversion
import DocQuery.Schema

/-!
# DocQuery.Grammar.Literal — values written in queries

A literal is a text in single quotes, a number, TRUE, FALSE or NULL.  A literal compared with an
item is brought to the type that the item is expected to have, where it can be (`coerce`).
-/

namespace DocQuery.Grammar

/-- The text of a quoted literal after its opening quote: a backslash takes the next character as it
is, two quotes stand for one, and a single quote must end the text. -/
def unquoteBody? : List Char → Option (List Char)
  | [] => none
  | ['\\'] => none
  | '\\' :: c :: text => (unquoteBody? text).map (c :: ·)
  | '\'' :: '\'' :: text => (unquoteBody? text).map ('\'' :: ·)
  | ['\''] => some []
  | '\'' :: _ => none
  | c :: text => (unquoteBody? text).map (c :: ·)

/-- Whether a character can begin a number. -/
def startsNumber (c : Char) : Bool := c.isDigit || c == '-' || c == '+' || c == '.'

/-- The value of a literal, blanks around it aside. -/
def readLiteral? (text : List Char) : Option Value :=
  let text := Text.trim text
  match text with
  | '\'' :: body => (unquoteBody? body).map fun s => .text (String.ofList s)
  | _ =>
    if Text.eqIgnoreCase text "NULL".toList then some .null
    else if Text.eqIgnoreCase text "TRUE".toList then some (.boolean true)
    else if Text.eqIgnoreCase text "FALSE".toList then some (.boolean false)
    else if text.head?.any startsNumber then (Number.read? text).map Value.number
    else none

/-- A literal brought to the type of the item that it is compared with; it stays as it is if it
cannot be. -/
def coerce (value : Value) (type : Option ColumnType) : Value :=
  let converted := match type, value with
    | some .number, .text s => (Number.read? s.toList).map Value.number
    | some .temporal, .text s => (Moment.read? s.toList).map Value.temporal
    | some .boolean, .text _ | some .boolean, .number (.integer _) =>
      value.toBoolean?.map Value.boolean
    | _, _ => none
  converted.getD value

end DocQuery.Grammar
