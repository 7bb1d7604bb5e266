import DocQuery.Json.Token

/-!
# DocQuery.Json.Reader — documents from text

A text is read token by token.  The containers that are still open form a stack of frames, and the
state tells what may come next; containers may be nested 127 deep.  The text is one document when
the stack is empty at the end and a value is there.  A repeated key of an object keeps its place and
takes the later value.
-/

namespace DocQuery.Json

/-- An open container with what it holds so far; `items` are last first. -/
inductive Frame where
  | array (items : List Json)
  | object (members : List (String × Json)) (key : String)

/-- What may come next. -/
inductive Expect where
  /-- A value. -/
  | value
  /-- A value, or the end of the array just opened. -/
  | firstItem
  /-- A key, or the end of the object just opened. -/
  | firstKey
  /-- A key. -/
  | key (members : List (String × Json))
  /-- The colon after a key. -/
  | colon
  /-- A comma or the end of the container; `value` is what was read last. -/
  | separator (value : Json)

/-- The state of reading. -/
structure Reading where
  frames : List Frame
  expect : Expect

namespace Reading

/-- How deep containers may be nested. -/
def depthLimit : Nat := 127

/-- A container opened. -/
def push? (frames : List Frame) (frame : Frame) (expect : Expect) : Option Reading :=
  if frames.length < depthLimit then some ⟨frame :: frames, expect⟩ else none

/-- A token where a value must be. -/
def value? (frames : List Frame) : Token → Option Reading
  | .scalar v => some ⟨frames, .separator v⟩
  | .string s => some ⟨frames, .separator (.string s)⟩
  | .openArray => push? frames (.array []) .firstItem
  | .openObject => push? frames (.object [] "") .firstKey
  | _ => none

/-- One token. -/
def step (r : Reading) (token : Token) : Option Reading :=
  match r.expect, r.frames, token with
  | .value, frames, token => value? frames token
  | .firstItem, .array [] :: frames, .closeArray => some ⟨frames, .separator (.array [])⟩
  | .firstItem, frames, token => value? frames token
  | .firstKey, .object _ _ :: frames, .closeObject => some ⟨frames, .separator (.object [])⟩
  | .firstKey, .object members _ :: frames, .string key =>
    some ⟨.object members key :: frames, .colon⟩
  | .key members, frames, .string key => some ⟨.object members key :: frames, .colon⟩
  | .colon, frames, .colon => some ⟨frames, .value⟩
  | .separator v, .array items :: frames, .comma => some ⟨.array (v :: items) :: frames, .value⟩
  | .separator v, .array items :: frames, .closeArray =>
    some ⟨frames, .separator (.array (v :: items).reverse)⟩
  | .separator v, .object members key :: frames, .comma =>
    some ⟨frames, .key (insertMember members key v)⟩
  | .separator v, .object members key :: frames, .closeObject =>
    some ⟨frames, .separator (.object (insertMember members key v))⟩
  | _, _, _ => none

/-- The document, if the text may end here. -/
def result? : Reading → Option Json
  | ⟨[], .separator v⟩ => some v
  | _ => none

end Reading

/-- The document of a text. -/
def read? (s : List Char) : Option Json :=
  (tokens? s).bind fun ts => (ts.foldlM Reading.step ⟨[], .value⟩).bind Reading.result?

end DocQuery.Json
