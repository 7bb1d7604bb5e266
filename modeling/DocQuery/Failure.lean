import DocQuery.Error

/-!
# DocQuery.Failure — what can go wrong around queries

Besides the errors of queries there are those of reading files and settings and of writing results.
The malformed texts are told apart by what they should have been, and not by where they are wrong.
-/

namespace DocQuery

/-- Why documents, settings or results cannot be read or written. -/
inductive Failure where
  /-- A query is wrong. -/
  | query (e : QueryError)
  /-- A table that is asked for has not been registered. -/
  | notRegistered (name : String)
  /-- A file of documents holds something else. -/
  | invalidDocument (path found : String)
  /-- No format of documents has this name. -/
  | unknownDocumentFormat (name : String)
  /-- The extension of a path names no format of documents. -/
  | undeterminedFormat (path : String)
  /-- No format of results has this name. -/
  | unknownOutputFormat (name : String)
  /-- An argument does not name a table and its path. -/
  | notTableArgument (text : String)
  /-- A table has the name of another one. -/
  | registeredTwice (name : String)
  /-- A file is missing, or is not text. -/
  | unreadable
  /-- A text is not JSON. -/
  | malformedJson
  /-- A file cannot be read as records, or records cannot be written. -/
  | malformedRecords
  /-- A text is not TOML, or not settings. -/
  | malformedSettings
deriving DecidableEq

namespace Failure

/-- Whether the failure is one of how the program is set up. -/
def isSetup : Failure → Bool
  | .unknownDocumentFormat _ | .undeterminedFormat _ | .unknownOutputFormat _
  | .notTableArgument _ | .registeredTwice _ => true
  | _ => false

/-- What is wrong, for a failure of the set-up without the words that begin its message. -/
def detail : Failure → String
  | .query e => e.message
  | .notRegistered name => "Table '" ++ name ++ "' is not registered"
  | .invalidDocument path found =>
    "Invalid document in " ++ path ++ ": expected an array or an object, found " ++ found
  | .unknownDocumentFormat name => "Unknown document format: " ++ name
  | .undeterminedFormat path =>
    "Cannot tell the document format of " ++ path ++ ", set \x60format\x60 explicitly"
  | .unknownOutputFormat name => "Unknown output format: " ++ name
  | .notTableArgument text => "Expected NAME=PATH for a table, got '" ++ text ++ "'"
  | .registeredTwice name => "Table " ++ name ++ " is registered twice"
  | .unreadable => "IO error: the file cannot be read"
  | .malformedJson => "JSON error: the text is malformed"
  | .malformedRecords => "CSV error: the records are malformed"
  | .malformedSettings => "TOML error: the settings are malformed"

/-- The message of a failure. -/
def message (f : Failure) : String :=
  if f.isSetup then "Configuration error: " ++ f.detail else f.detail

end Failure

end DocQuery
