import LlvmBackend.Build.Compile
import LlvmBackend.CommandLine

/-!
# The program

A command line carried out on a host. The status is 0 after success, 1 after a failure and 2 if the
command line is misused.
-/

namespace LlvmBackend

namespace Program

variable {m : Type → Type} [Monad m] [Host m]

/-- The file that makes a directory a project. -/
def projectFile : String := "runa.toml"

/-- Why the settings of a run are not known. -/
inductive SetupError where
  | unreadable (path : String) (why : HostError)
  | invalid (path text : String) (why : Toml.Error)
  | noFile

/-- The message about unknown settings. -/
def SetupError.message : SetupError → String
  | .unreadable path why => s!"Failed to read '{path}': {why.message}"
  | .invalid path text why => s!"Invalid '{path}': {why.message text}"
  | .noFile =>
    "No file path provided. Please provide a module tree or run inside a directory with a " ++
      s!"`{projectFile}`."

/-- The project of the directory in use, if it is one. -/
def loadProject : ExceptT SetupError m (Option Project) := do
  let path := "./" ++ projectFile
  match ← ExceptT.lift (Host.readFile path) with
  | .error .notFound => return none
  | .error why => throw (.unreadable path why)
  | .ok text =>
    match Project.ofToml text with
    | .ok project => return some project
    | .error why => throw (.invalid path text why)

/-- What is to be done: a build with its settings, or types from a file to be shown. -/
inductive Task where
  | build (settings : BuildSettings)
  | types (file : Option String)

/-- The task of a command line in a project. -/
def taskOf (line : CommandLine) (project : Option Project) : Except SetupError Task :=
  match line.command with
  | .build request =>
    match request.settings? line.dumps project with
    | some settings => .ok (.build settings)
    | none => .error .noFile
  | .types file => .ok (.types (file.or (project.bind (·.build.typesFile))))

/-- Carries a task out. -/
def perform (verbosity : Verbosity) : Task → ExceptT BuildError m Unit
  | .build settings => discard (Build.compile verbosity settings)
  | .types file => Build.printTypes verbosity file

/-- Reports a failure; what a tool says about itself stands alone. -/
def report (error : BuildError) : m Unit :=
  match error with
  | .toolchain why => Host.writeLog (why.message ++ "\n")
  | error => Host.writeLog s!"Error: {error.message}\n"

/-- Carries out what a command line asks for. -/
def runLine (line : CommandLine) : m UInt32 := do
  let task ← ExceptT.run do
    let project ← loadProject
    MonadExcept.ofExcept (taskOf line project)
  match task with
  | .error why =>
    Host.writeLog s!"Error: {why.message}\n"
    return 1
  | .ok task =>
    match ← (perform line.verbosity task).run with
    | .ok _ => return 0
    | .error error =>
      report error
      return 1

/-- How the program is used. -/
def usageText : String := "Usage: runa [OPTIONS] <build [FILE] | types>\n"

/-- Runs the program with its arguments. -/
def run (args : List String) : m UInt32 := do
  match CommandLine.parse args with
  | .ok line => runLine line
  | .error .misuse =>
    Host.writeLog ("error: invalid command line\n" ++ usageText)
    return 2
  | .error .help =>
    Host.writeOutput usageText
    return 0
  | .error (.version name) =>
    Host.writeOutput s!"{name} 0.1.0\n"
    return 0

end Program

end LlvmBackend
