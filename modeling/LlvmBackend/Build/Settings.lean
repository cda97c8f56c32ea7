import LlvmBackend.Build.Project
import LlvmBackend.Codegen
import LlvmBackend.Text.Path

/-!
# Build settings

What a build is to do. The project fills in what the user left open: a setting that still has its
default value counts as left open.
-/

namespace LlvmBackend

/-- What can be shown besides the output of a build. -/
inductive DumpKind where
  | types
  | signatures
  | ir
  deriving DecidableEq, Repr

namespace DumpKind

/-- The kinds by their names. -/
def named : List (String × DumpKind) :=
  [("types", .types), ("signatures", .signatures), ("ir", .ir)]

end DumpKind

/-- The settings of a build. -/
structure BuildSettings where
  /-- The module tree to compile. -/
  file : String
  typesFile : Option String := none
  includeFile : Option String := none
  entry : String := "__main__"
  /-- The host's platform if absent. -/
  platform : Option String := none
  outputDir : String := "build"
  dumps : List DumpKind := []
  /-- Where the code is written; by the name of the module tree if absent. -/
  emitLl : Option String := none
  /-- Where the executable is written; nothing is linked if absent. -/
  emitBin : Option String := none
  cc : String := "clang"
  runtimeObjects : List String := []
  deriving DecidableEq, Repr

namespace BuildSettings

/-- A value that replaces another one only where that is the default. -/
def orProject (value default : String) (project : Option String) : String :=
  if value = default then project.getD value else value

/-- Fills in from a project what is left open. -/
def merge (settings : BuildSettings) (project : ProjectBuild) : BuildSettings :=
  { settings with
    typesFile := settings.typesFile.or project.typesFile
    includeFile := settings.includeFile.or project.includeFile
    platform := settings.platform.or project.platform
    entry := orProject settings.entry "__main__" project.entry
    cc := orProject settings.cc "clang" project.cc
    runtimeObjects :=
      if settings.runtimeObjects.isEmpty then project.runtime else settings.runtimeObjects
    outputDir := orProject settings.outputDir "build" (some project.outputDir) }

/-- The choices that concern the code; the text of a preamble is read later. -/
def codegenOptions (settings : BuildSettings) : CodegenOptions where
  platform := settings.platform.getD Platform.host
  entry := settings.entry

/-- Where the code is written. -/
def llPath (settings : BuildSettings) : String :=
  match settings.emitLl with
  | some path => path
  | none =>
    Text.Path.join settings.outputDir ((Text.Path.fileStem settings.file).getD "out" ++ ".ll")

end BuildSettings

/-! ## Builds from the command line -/

/-- What a build can produce. -/
inductive EmitKind where
  | ll
  | bin
  deriving DecidableEq, Repr

/-- The kinds by their names. -/
def EmitKind.named : List (String × EmitKind) := [("ll", .ll), ("bin", .bin)]

/-- A build as the user asks for it. -/
structure BuildRequest where
  file : Option String := none
  types : Option String := none
  preamble : Option String := none
  platform : Option String := none
  entry : Option String := none
  outputDir : Option String := none
  emitLl : Option String := none
  emit : List EmitKind := []
  cc : Option String := none
  runtime : List String := []
  deriving DecidableEq, Repr

namespace BuildRequest

/-- The settings that a request gives, before anything is filled in. -/
def explicitSettings (request : BuildRequest) (dumps : List DumpKind) (file : String) :
    BuildSettings :=
  let start : BuildSettings := { file }
  { start with
    typesFile := request.types
    includeFile := request.preamble
    platform := request.platform
    emitLl := request.emitLl
    runtimeObjects := request.runtime
    dumps
    entry := request.entry.getD start.entry
    outputDir := request.outputDir.getD start.outputDir
    cc := request.cc.getD start.cc }

/-- The name of the executable: the project's when the project gives the file, and else that of the
    file. -/
def binName (request : BuildRequest) (project : Option Project) (file : String) : String :=
  match request.file, project with
  | none, some project => project.name
  | _, _ => (Text.Path.fileStem file).getD "out"

/-- The settings of a build; there are none if nobody names a file. -/
def settings? (request : BuildRequest) (dumps : List DumpKind) (project : Option Project) :
    Option BuildSettings := do
  let file ← request.file.or (project.map (·.build.mainFile))
  let explicit := request.explicitSettings dumps file
  let merged := match project with
    | some project => explicit.merge project.build
    | none => explicit
  if .bin ∈ request.emit then
    return { merged with emitBin := some s!"{merged.outputDir}/{request.binName project file}" }
  return merged

end BuildRequest

end LlvmBackend
