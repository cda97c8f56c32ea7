import LlvmBackend.Build.Host
import LlvmBackend.NameMap
import LlvmBackend.Text.Path

/-!
# Directory trees in memory

A host for builds that only keeps what they write: files and directories below the one in use. What
lies around that directory is only known to be directories, and nothing written there is kept. The
only tools there are do nothing, one with success and one without.
-/

namespace LlvmBackend

/-- A directory tree. Files and directories go by their paths from the root of the tree. -/
structure Disk where
  files : NameMap String := .empty
  /-- Directories that were made; those on the way to a file are there as well. -/
  made : List String := []

/-- What a path leads to. -/
inductive Disk.Spot where
  /-- A directory, by its names from the root; `none` lies around the tree. -/
  | directory (names : Option (List String))
  | file (path text : String)
  /-- Nothing, in a directory that is there. -/
  | free (path : String)
  /-- A name outside of the tree. -/
  | elsewhere

namespace Disk

variable (disk : Disk)

/-- A path from the root. -/
def path (names : List String) : String := "/".intercalate names

/-- Whether there is a directory under a path from the root. -/
def isDirectory (names : List String) : Bool :=
  let path := path names
  names.isEmpty || disk.made.contains path ||
    disk.files.names.any fun file => file.startsWith (path ++ "/")

/-- What one name in a directory leads to. -/
def enter (names : Option (List String)) (name : String) : Spot :=
  if name = "." then .directory names
  else
    match names with
    | none => if name = ".." then .directory none else .elsewhere
    | some names =>
      if name = ".." then .directory (if names.isEmpty then none else some names.dropLast)
      else
        let inside := names ++ [name]
        match disk.files.get? (path inside) with
        | some text => .file (path inside) text
        | none => if disk.isDirectory inside then .directory (some inside) else .free (path inside)

/-- Follows names from a directory. -/
def follow (names : Option (List String)) : List String → Except HostError Spot
  | [] => .ok (.directory names)
  | [name] => .ok (disk.enter names name)
  | name :: rest =>
    match disk.enter names name with
    | .directory names => follow names rest
    | .file _ _ => .error .notDirectory
    | .free _ => .error .notFound
    | .elsewhere => .ok .elsewhere

/-- What a path leads to. A path that ends in a slash leads to a directory. -/
def spot (path : String) : Except HostError Spot := do
  if path.isEmpty then throw .notFound
  let start := if path.startsWith "/" then none else some []
  let found ← disk.follow start (Text.Path.pieces path)
  match found, path.endsWith "/" with
  | .file _ _, true => throw .notDirectory
  | found, _ => return found

/-- The text of a file. -/
def read (path : String) : Except HostError String := do
  match ← disk.spot path with
  | .file _ text => return text
  | .directory _ => throw .isDirectory
  | .free _ | .elsewhere => throw .notFound

/-- Writes a file, over the one that is there. A path that ends in a slash could only be that of a
    directory. -/
def write (path text : String) : Except HostError Disk := do
  if path.endsWith "/" then throw .isDirectory
  match ← disk.spot path with
  | .file place _ | .free place => return { disk with files := disk.files.insert place text }
  | .directory _ => throw .isDirectory
  | .elsewhere => return disk

/-- Makes one directory. -/
def makeDirectory (path : String) : Except HostError Disk := do
  match ← disk.spot path with
  | .free place => return { disk with made := place :: disk.made }
  | .file _ _ | .directory _ => throw .exists
  | .elsewhere => return disk

/-- Whether a path leads to a directory. -/
def leadsToDirectory (path : String) : Bool :=
  match disk.spot path with
  | .ok (.directory _) => true
  | _ => false

/-- Makes a directory where it is not there already. -/
def ensureDirectory (path : String) : Except HostError Disk :=
  match disk.makeDirectory path with
  | .ok disk => .ok disk
  | .error why => if disk.leadsToDirectory path then .ok disk else .error why

/-- Makes the first of some directories, each inside the next, and of the others those without which
    it cannot be made. -/
def makeInside : List String → Except HostError Disk
  | [] => .ok disk
  | path :: around =>
    match disk.makeDirectory path with
    | .error .notFound => do (← makeInside around).ensureDirectory path
    | _ => disk.ensureDirectory path

/-- The paths of a directory and of those around it. -/
def outwards (path : String) : List String :=
  let parts := Text.Path.parts path
  (List.range' 1 parts.length).reverse.map fun count => Text.Path.ofParts (parts.take count)

/-- Makes a directory and those around it, as far as they are not there. -/
def makeDirectories (path : String) : Except HostError Disk := disk.makeInside (outwards path)

/-- The files of a tree that are new or have another text than in an earlier one. -/
def changedSince (earlier : Disk) : List (String × String) :=
  disk.files.entries.filter fun (path, text) => earlier.files.get? path ≠ some text

/-- How a tool without effect ends; other tools are not there. -/
def runTool (tool : String) : Except HostError ToolResult :=
  match tool with
  | "true" => .ok ⟨true, ""⟩
  | "false" => .ok ⟨false, ""⟩
  | _ => .error .notFound

end Disk

/-- What a run in memory has left behind so far. -/
structure Session where
  disk : Disk
  output : String := ""
  log : String := ""

/-- A run in memory. -/
abbrev InMemory := StateM Session

namespace InMemory

/-- A change of the tree that may be refused. -/
def change (step : Disk → Except HostError Disk) : InMemory (Except HostError Unit) :=
  modifyGet fun session =>
    match step session.disk with
    | .ok disk => (.ok (), { session with disk })
    | .error why => (.error why, session)

/-- Files are those of the tree, and both streams are kept. -/
instance : Host InMemory where
  readFile path := return (← get).disk.read path
  writeFile path text := change (·.write path text)
  makeDirectories path := change (·.makeDirectories path)
  runTool tool _ := return Disk.runTool tool
  writeOutput text := modify fun session => { session with output := session.output ++ text }
  writeLog text := modify fun session => { session with log := session.log ++ text }

end InMemory

end LlvmBackend
