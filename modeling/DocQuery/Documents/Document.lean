import DocQuery.Documents.Cell
import DocQuery.Documents.Records
import DocQuery.Failure
import DocQuery.Files.Tree
import DocQuery.Json.Reader

/-!
# DocQuery.Documents.Document — reading files of documents

A document is a list of keys and values.  A file holds documents in one of three formats: a JSON
array of objects or one object, one JSON object on each line, or comma separated values under a
record of keys.  What is no object among others is passed over; a whole file that is none is
refused.
-/

namespace DocQuery

/-- The keys and values of one document, in its order. -/
abbrev Document := List (String × Value)

/-- How a file holds documents. -/
inductive DocumentFormat where
  | json | lines | records
deriving DecidableEq

namespace DocumentFormat

/-- The name of a format. -/
def name : DocumentFormat → String
  | .json => "json"
  | .lines => "jsonl"
  | .records => "csv"

/-- The format of a name in any case. -/
def ofName? (text : String) : Except Failure DocumentFormat :=
  let word := String.ofList (Text.lower text.toList)
  if word == "ndjson" then .ok .lines
  else match [DocumentFormat.json, .lines, .records].find? fun f => f.name == word with
    | some f => .ok f
    | none => .error (.unknownDocumentFormat word)

/-- The format that the extension of a path names. -/
def ofPath? (path : String) : Except Failure DocumentFormat :=
  match ofName? ((Path.extension? path).getD "") with
  | .ok f => .ok f
  | .error _ => .error (.undeterminedFormat path)

end DocumentFormat

namespace Document

/-- What kind of JSON value a text holds, in words. -/
def kindOf : Json → String
  | .null => "null"
  | .bool _ => "a boolean"
  | .number _ => "a number"
  | .string _ => "a string"
  | .array _ => "an array"
  | .object _ => "an object"

/-- The document of an object. -/
def ofObject? : Json → Option Document
  | .object members => some (members.map fun (k, v) => (k, .ofJson v))
  | _ => none

/-- The documents of a JSON text. -/
def ofJson? (path : String) (text : List Char) : Except Failure (List Document) :=
  match Json.read? text with
  | none => .error .malformedJson
  | some (.array items) => .ok (items.filterMap ofObject?)
  | some j => match ofObject? j with
    | some document => .ok [document]
    | none => .error (.invalidDocument path (kindOf j))

/-- The documents of a text with one on each line; other lines are passed over. -/
def ofLines (text : List Char) : List Document :=
  (Text.splitOnChar '\n' text).filterMap fun line => (Json.read? (Text.trim line)).bind ofObject?

/-- The column at a place of records; short records do not have a cell there. -/
def columnCells (records : List (List (List Char))) (place : Nat) : List (List Char) :=
  records.filterMap (·[place]?)

/-- The documents of records under a record of keys. -/
def ofRecords (text : List Char) : List Document :=
  match (Records.read text).map (·.map Text.trim) with
  | [] => []
  | keys :: records =>
    let columns := keys.zipIdx.map fun (key, place) =>
      (String.ofList key, CellKind.infer (columnCells records place), place)
    records.map fun record => columns.map fun (key, kind, place) =>
      (key, kind.value ((record[place]?).getD []))

/-- The documents of a file in a format. -/
def ofFile (files : Files) (format : DocumentFormat) (path : String) :
    Except Failure (List Document) :=
  match (files path).text?, format with
  | some text, .json => ofJson? path text.toList
  | some text, .lines => .ok (ofLines text.toList)
  | some text, .records => .ok (ofRecords text.toList)
  | none, .records => .error .malformedRecords
  | none, _ => .error .unreadable

end Document

end DocQuery
