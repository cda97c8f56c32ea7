/-!
# Paths

Paths as texts with slashes. Two paths are the same if their parts are: repeated slashes, a slash at
the end and a point between slashes make no difference, while a point at the start and two points
do.
-/

namespace LlvmBackend.Text.Path

/-- The pieces between slashes. -/
def pieces (path : String) : List String := (path.splitOn "/").filter (· ≠ "")

/-- The parts by which paths are compared. A leading slash is a part, and so is a point where
    nothing stands before it. -/
def parts (path : String) : List String :=
  let rest := (pieces path).drop 1 |>.filter (· ≠ ".")
  match path.startsWith "/", (pieces path).head? with
  | true, _ => "/" :: (pieces path).filter (· ≠ ".")
  | false, some first => first :: rest
  | false, none => []

/-- The name at the end of a path. -/
def fileName (path : String) : Option String :=
  match (parts path).getLast? with
  | some name => if name = "/" ∨ name = "." ∨ name = ".." then none else some name
  | none => none

/-- A name without its last point and what follows; a point at the start does not count. -/
def stemOf (name : String) : String :=
  let reversed := name.toList.reverse
  let after := reversed.takeWhile (· ≠ '.')
  let before := reversed.drop (after.length + 1)
  if before.isEmpty then name else String.ofList before.reverse

/-- The name at the end of a path without what follows its last point. -/
def fileStem (path : String) : Option String := (fileName path).map stemOf

/-- A path of parts. -/
def ofParts : List String → String
  | "/" :: rest => "/" ++ "/".intercalate rest
  | parts => "/".intercalate parts

/-- The directory around what a path leads to; a path of one part and an empty path name none. -/
def parent? (path : String) : Option String :=
  match (parts path).dropLast with
  | [] => none
  | parts => some (ofParts parts)

/-- A name inside a directory. -/
def join (directory name : String) : String :=
  if directory.isEmpty ∨ directory.endsWith "/" then directory ++ name
  else directory ++ "/" ++ name

end LlvmBackend.Text.Path
