import LlvmBackend.Build.Link
import LlvmBackend.Build.Verbosity
import LlvmBackend.Dump
import LlvmBackend.Json.Mark
import LlvmBackend.Registry.File
import LlvmBackend.Tree.Reader

/-!
# Builds

From a module tree in a file to code in a file, and on to an executable if one is wanted, with the
messages that the user asked for on the way.
-/

namespace LlvmBackend

/-- Why no executable came out. -/
inductive ToolFailure where
  | cannotStart (tool : String) (why : HostError)
  | failed (tool action errors : String)

/-- The message about a tool. -/
def ToolFailure.message : ToolFailure → String
  | .cannotStart tool why => s!"Failed to run {tool}: {why.message}"
  | .failed tool action errors => toolErrorText false tool action errors

/-- Why a build stops. Texts of files are kept for messages that point into them. -/
inductive BuildError where
  | read (path : String) (why : HostError)
  | write (path : String) (why : HostError)
  | tree (path text : String) (why : ReadError)
  | types (path text : String) (why : RegistryError)
  | codegen (why : CodegenError)
  | toolchain (why : ToolFailure)
  | noSettings

/-- The message about a build that stops. -/
def BuildError.message : BuildError → String
  | .read path why => s!"failed to read `{path}`: {why.message}"
  | .write path why => s!"failed to write `{path}`: {why.message}"
  | .tree path text why => s!"invalid module tree in `{path}`: {Json.errorText text why}"
  | .types path text why => s!"types file `{path}`: {why.message text}"
  | .codegen why => why.message
  | .toolchain why => why.message
  | .noSettings => "no build configuration given"

/-- The files that a build wrote. -/
structure BuildOutput where
  llPath : String
  binPath : Option String := none
  deriving DecidableEq, Repr

namespace Build

variable {m : Type → Type} [Monad m] [Host m]

/-! ## Messages -/

/-- A line for the user, beside the output. -/
def log (line : String) : ExceptT BuildError m Unit := ExceptT.lift (Host.writeLog (line ++ "\n"))

/-- Output that the user asked for. -/
def output (text : String) : ExceptT BuildError m Unit := ExceptT.lift (Host.writeOutput text)

/-- A remark about a phase of the build. -/
def phase (verbosity : Verbosity) (message : String) : ExceptT BuildError m Unit := do
  if verbosity.showsPhases then log s!"    --> {message}"

/-- A remark about the end of the build. -/
def success (verbosity : Verbosity) (message : String) : ExceptT BuildError m Unit := do
  if verbosity.showsPhases then log s!"--> {message}"

/-- A remark for who looks for a fault. -/
def debug (verbosity : Verbosity) (message : String) : ExceptT BuildError m Unit := do
  if verbosity.showsDebug then log s!"debug: {message}"

/-- A remark about one part of the build. -/
def trace (verbosity : Verbosity) (topic : Topic) (message : String) :
    ExceptT BuildError m Unit := do
  if verbosity.traces topic then log s!"debug[{topic.name}]: {message}"

/-- The remarks about the generation of code, in their order. -/
def traceNotes (verbosity : Verbosity) : List Note → ExceptT BuildError m Unit
  | [] => return ()
  | note :: rest => do
    trace verbosity note.topic note.message
    traceNotes verbosity rest

/-! ## Files -/

/-- The text of a file. -/
def readFile (path : String) : ExceptT BuildError m String := do
  match ← ExceptT.lift (Host.readFile path) with
  | .ok text => return text
  | .error why => throw (.read path why)

/-- Writes a file and makes the directories around it. -/
def writeFile (path text : String) : ExceptT BuildError m Unit := do
  if let some directory := Text.Path.parent? path then
    if let .error why ← ExceptT.lift (Host.makeDirectories directory) then
      throw (.write path why)
  if let .error why ← ExceptT.lift (Host.writeFile path text) then throw (.write path why)

/-! ## Phases -/

/-- The builtin types and those of a file. -/
def loadTypes (verbosity : Verbosity) (typesFile : Option String) :
    ExceptT BuildError m Registry := do
  let types ← match typesFile with
    | none => pure .builtin
    | some path =>
      let text ← readFile path
      match Registry.builtin.extend text with
      | (_, .error why) => throw (.types path text why)
      | (types, .ok count) =>
        trace verbosity .types s!"{count} descriptor(s) from {path}"
        pure types
  trace verbosity .types s!"registry holds {types.size} type(s)"
  return types

/-- Shows the types of a registry. -/
def printTypes (verbosity : Verbosity) (typesFile : Option String) :
    ExceptT BuildError m Unit := do
  let types ← loadTypes verbosity typesFile
  output (types.table.text ++ "\n")

/-- The module tree of a file. -/
def loadTree (verbosity : Verbosity) (path : String) : ExceptT BuildError m Tree.Module := do
  phase verbosity s!"Loading... {path}"
  let text ← readFile path
  match Tree.Module.ofJson? text with
  | .error why => throw (.tree path text why)
  | .ok tree =>
    debug verbosity s!"{tree.functions.length} function(s) in {path}"
    return tree

/-- The choices that concern the code, with the text of a preamble. -/
def loadOptions (verbosity : Verbosity) (settings : BuildSettings) :
    ExceptT BuildError m CodegenOptions := do
  let options := settings.codegenOptions
  match settings.includeFile with
  | none => return options
  | some path =>
    let text ← readFile path
    trace verbosity .driver s!"preamble from {path}"
    return { options with preamble := some text }

/-- Shows the types and signatures if that is wanted. -/
def dumpTables (settings : BuildSettings) (tree : Tree.Module) (types : Registry)
    (entry : String) : ExceptT BuildError m Unit := do
  if .types ∈ settings.dumps then output (types.table.text ++ "\n")
  if .signatures ∈ settings.dumps then
    match SignatureTable.collect tree types entry with
    | .error why => throw (.codegen why)
    | .ok signatures => output ((signatures.table types).text ++ "\n")

/-- Generates the code. -/
def generate (verbosity : Verbosity) (settings : BuildSettings) (tree : Tree.Module)
    (types : Registry) (options : CodegenOptions) : ExceptT BuildError m String := do
  phase verbosity s!"Lowering... {settings.file} for {options.platform}"
  let (outcome, notes) := Codegen.run (Codegen.emit tree types options)
  traceNotes verbosity notes
  match outcome with
  | .error why => throw (.codegen why)
  | .ok text =>
    if .ir ∈ settings.dumps then output text
    return text

/-- Links an executable. -/
def link (verbosity : Verbosity) (settings : BuildSettings) (llPath binPath : String) :
    ExceptT BuildError m Unit := do
  let plan := LinkPlan.ofSettings settings
  phase verbosity s!"Linking {llPath} -> {binPath}"
  trace verbosity .link (plan.shown llPath binPath)
  match ← ExceptT.lift (Host.runTool plan.cc (plan.arguments llPath binPath)) with
  | .error why => throw (.toolchain (.cannotStart plan.cc why))
  | .ok result =>
    unless result.success do throw (.toolchain (.failed plan.cc "linking" result.errors))

/-- Compiles the module tree that the settings name. -/
def compile (verbosity : Verbosity) (settings : BuildSettings) :
    ExceptT BuildError m BuildOutput := do
  let tree ← loadTree verbosity settings.file
  let types ← loadTypes verbosity settings.typesFile
  let options ← loadOptions verbosity settings
  dumpTables settings tree types options.entry
  let text ← generate verbosity settings tree types options
  let llPath := settings.llPath
  writeFile llPath text
  trace verbosity .driver s!"wrote {text.utf8ByteSize} byte(s) to {llPath}"
  match settings.emitBin with
  | none => success verbosity s!"Emitted {llPath}"
  | some binPath =>
    link verbosity settings llPath binPath
    success verbosity s!"Built {binPath}"
  return { llPath, binPath := settings.emitBin }

/-- Compiles what the settings name, if there are any. -/
def compileWith (verbosity : Verbosity) :
    Option BuildSettings → ExceptT BuildError m BuildOutput
  | none => throw .noSettings
  | some settings => compile verbosity settings

end Build

end LlvmBackend
