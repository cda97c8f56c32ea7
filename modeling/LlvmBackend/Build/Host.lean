/-!
# Hosts

What a build needs from its surroundings: files, tools and two streams for its messages.
-/

namespace LlvmBackend

/-- Why a host refuses to work on a file or to start a tool. -/
inductive HostError where
  | notFound
  | exists
  | notDirectory
  | isDirectory
  | other (message : String)
  deriving DecidableEq, Repr

/-- The message about a refusal. -/
def HostError.message : HostError → String
  | .notFound => "No such file or directory (os error 2)"
  | .exists => "File exists (os error 17)"
  | .notDirectory => "Not a directory (os error 20)"
  | .isDirectory => "Is a directory (os error 21)"
  | .other message => message

/-- How a tool ended. -/
structure ToolResult where
  success : Bool
  /-- What it wrote about errors. -/
  errors : String

/-- Steps that can use a host. -/
class Host (m : Type → Type) where
  readFile : String → m (Except HostError String)
  writeFile : String → String → m (Except HostError Unit)
  /-- Makes a directory and those around it, as far as they are not there. -/
  makeDirectories : String → m (Except HostError Unit)
  /-- Runs a tool with arguments to its end. -/
  runTool : String → List String → m (Except HostError ToolResult)
  writeOutput : String → m Unit
  writeLog : String → m Unit

end LlvmBackend
