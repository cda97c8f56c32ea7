import LlvmBackend.Build.Host
import LlvmBackend.Build.Settings
import LlvmBackend.Text.Blank
import LlvmBackend.Text.Path
import LlvmBackend.Text.Quoted

/-!
# Linking

The command that makes an executable of a module's code, and what is said when it fails.
-/

namespace LlvmBackend

/-- What is linked by which tool. -/
structure LinkPlan where
  cc : String
  /-- Objects for the linker, none twice. -/
  objects : List String
  deriving DecidableEq, Repr

namespace LinkPlan

/-- Leaves out paths that stand for the same as an earlier one. -/
def distinctPaths (paths : List String) : List String :=
  paths.foldl (fun kept path =>
    if kept.any fun other => Text.Path.parts other = Text.Path.parts path then kept
    else kept ++ [path]) []

/-- The linking that the settings of a build ask for. -/
def ofSettings (settings : BuildSettings) : LinkPlan :=
  ⟨settings.cc, distinctPaths settings.runtimeObjects⟩

/-- The arguments of the tool. -/
def arguments (plan : LinkPlan) (ll bin : String) : List String :=
  ll :: plan.objects ++ ["-o", bin]

/-- The command as it is shown. -/
def shown (plan : LinkPlan) (ll bin : String) : String :=
  " ".intercalate ((plan.cc :: plan.arguments ll bin).map Text.quoted)

end LinkPlan

/-- A text between the codes that turn a style of a terminal on and off. -/
def styled (color : Bool) (style text : String) : String :=
  if color then s!"\x1b[{style}m{text}\x1b[0m" else text

/-- The message about a tool that failed, with what it wrote. -/
def toolErrorText (color : Bool) (tool action errors : String) : String :=
  let error := styled color "1;31" "Error:"
  let shownTool := styled color "33" tool
  s!"{error} {shownTool} {action} failed:\n" ++
    String.ofList (Text.trim errors.toList)

end LlvmBackend
