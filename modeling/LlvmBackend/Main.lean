import LlvmBackend.Program

/-!
# The executable

The program on the files of the machine. Tools cannot be started from here, so that a build ends
with its code.
-/

namespace LlvmBackend

/-- What the machine says about a refusal. -/
def HostError.ofMachine : IO.Error → HostError
  | .noFileOrDirectory .. => .notFound
  | .alreadyExists .. => .exists
  | error => .other (toString error)

/-- A step on the machine that may be refused. -/
def attempt {α : Type} (step : IO α) : IO (Except HostError α) := do
  try return .ok (← step) catch error => return .error (.ofMachine error)

/-- The files and the streams of the machine. -/
instance : Host IO where
  readFile path := attempt (IO.FS.readFile path)
  writeFile path text := attempt (IO.FS.writeFile path text)
  makeDirectories path := attempt (IO.FS.createDirAll path)
  runTool _ _ := return .error (.other "tools cannot be started")
  writeOutput text := do (← IO.getStdout).putStr text
  writeLog text := do (← IO.getStderr).putStr text

end LlvmBackend

def main (args : List String) : IO UInt32 := LlvmBackend.Program.run args
