import DocQuery.Files.Path

/-!
# DocQuery.Files.Tree — files and what reading them gives

Everything that reads files is a function of a view of them (`Files`).  One such view is a directory
tree held in memory (`Tree.files`): a path is followed segment by segment from the root of the tree,
every segment but the last must be a directory, and nothing outside the tree exists.
-/

namespace DocQuery

/-- What reading a path gives. -/
inductive FileState where
  /-- There is nothing. -/
  | missing
  /-- There is something that cannot be read, such as a directory. -/
  | unreadable
  /-- There is a file. -/
  | content (bytes : ByteArray)
deriving Inhabited

/-- A view of the files that there are. -/
abbrev Files := String → FileState

namespace FileState

/-- Whether there is anything at the path. -/
def isPresent : FileState → Bool
  | .missing => false
  | _ => true

/-- The text of a file in UTF-8. -/
def text? : FileState → Option String
  | .content bytes => String.fromUTF8? bytes
  | _ => none

end FileState

/-- Files by the names on the way to them from the root, and the ways to the directories that have
been made for them. -/
structure Tree where
  entries : List (List (List Char) × ByteArray) := []
  directories : List (List (List Char)) := []

namespace Tree

/-- The names on a way that says nothing superfluous. -/
def namesOf (path : String) : List (List Char) :=
  (Path.segments path).filter fun s => s ≠ [] && s ≠ ['.']

/-- The tree with a file written; directories on the way to it are made. -/
def write (t : Tree) (path : String) (bytes : ByteArray) : Tree :=
  let way := namesOf path
  ⟨t.entries.filter (·.1 ≠ way) ++ [(way, bytes)], way.dropLast :: t.directories⟩

/-- The tree without a file; the directories on the way to it stay. -/
def delete (t : Tree) (path : String) : Tree :=
  { t with entries := t.entries.filter (·.1 ≠ namesOf path) }

/-- Whether a way leads to a directory: the root, or one on the way to another. -/
def isDirectory (t : Tree) (way : List (List Char)) : Bool :=
  way.isEmpty || t.directories.any way.isPrefixOf

/-- One more segment after a way, given last name first, that must lead to a directory. -/
def follow (t : Tree) (way : List (List Char)) (segment : List Char) : Option (List (List Char)) :=
  if !t.isDirectory way.reverse then none
  else if segment = [] ∨ segment = ['.'] then some way
  else if segment = ['.', '.'] then way.tail?
  else some (segment :: way)

/-- What the end of a way, given last name first, holds. -/
def stateAt (t : Tree) (way : List (List Char)) : FileState :=
  match t.entries.lookup way.reverse with
  | some bytes => .content bytes
  | none => if t.isDirectory way.reverse then .unreadable else .missing

/-- The view of a tree. -/
def files (t : Tree) : Files := fun path =>
  if path.isEmpty || Path.isAbsolute path then .missing
  else match (Path.segments path).foldlM t.follow [] with
    | some way => t.stateAt way
    | none => .missing

end Tree

end DocQuery
