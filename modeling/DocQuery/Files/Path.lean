import DocQuery.Text.Chars

/-!
# DocQuery.Files.Path — paths of files

A path is a text of segments between slashes; one that begins with a slash is absolute.  Empty
segments and single dots say nothing, except that a single dot may be the first segment of a
relative path.
-/

namespace DocQuery.Path

/-! ## Segments -/

/-- Whether a path is absolute. -/
def isAbsolute (path : String) : Bool := path.toList.head? == some '/'

/-- The segments of a path, from the first to the last. -/
def segments (path : String) : List (List Char) := Text.splitOnChar '/' path.toList

/-- Segments, last one first, without those at the end of the path that say nothing. -/
def trimLast : List (List Char) → List (List Char)
  | [] => []
  | [first] => if first = [] then [] else [first]
  | s :: t :: rest => if s = [] ∨ s = ['.'] then trimLast (t :: rest) else s :: t :: rest

/-- The path of segments, given last one first; an empty first segment alone is the root. -/
def ofReversed (segments : List (List Char)) : String :=
  match segments with
  | [[]] => "/"
  | _ => String.ofList ((segments.reverse.intersperse ['/']).flatten)

/-! ## Parts of paths -/

/-- The path without its last segment; the root and the empty path have no parent. -/
def parent? (path : String) : Option String :=
  match trimLast (segments path).reverse with
  | [] => none
  | _ :: rest =>
    if isAbsolute path ∧ (trimLast rest) = [] then some "/"
    else some (ofReversed (trimLast rest))

/-- The last segment of a path, if it names a file or a directory. -/
def fileName? (path : String) : Option (List Char) :=
  (trimLast (segments path).reverse).head?.filter fun s => s ≠ ['.'] && s ≠ ['.', '.']

/-- The part of a file name after its last dot, if the dot is not the first character. -/
def extensionOf? (name : List Char) : Option (List Char) :=
  match Text.cutAt? '.' name.reverse with
  | some (after, before) => if before = [] then none else some after.reverse
  | none => none

/-- The part of the file name of a path after its last dot. -/
def extension? (path : String) : Option String :=
  ((fileName? path).bind extensionOf?).map String.ofList

/-! ## Joining -/

/-- A path taken from a directory; an absolute path stays as it is. -/
def join (directory path : String) : String :=
  if isAbsolute path then path
  else match directory.toList.getLast? with
    | none => path
    | some '/' => directory ++ path
    | some _ => directory ++ "/" ++ path

end DocQuery.Path
