import LlvmBackend.Ir.Printer
import LlvmBackend.Platform
import LlvmBackend.Preamble

/-!
# Code generation

A module as intermediate code: its functions in the order of the source, the literals in the order
in which they were met, and a preamble.
-/

namespace LlvmBackend

/-- What a user can choose about the code of a module. -/
structure CodegenOptions where
  platform : String := Platform.host
  /-- The function that a process starts with. -/
  entry : String := "__main__"
  /-- A text in the place of the derived preamble. -/
  preamble : Option String := none
  deriving DecidableEq, Repr

namespace Codegen

def ofExcept {α : Type} : Except CodegenError α → Codegen α
  | .ok value => pure value
  | .error error => throw error

def note (message : Note) : Codegen Unit :=
  modify fun progress => { progress with notes := progress.notes ++ [message] }

/-- Lowers a function of a module. -/
def function (types : Registry) (signatures : SignatureTable) (entry : String)
    (source : Tree.Function) : Codegen Ir.Function := do
  let lowered ←
    if source.name = entry then Lowering.lowerEntry types signatures source
    else Lowering.lowerFunction types signatures source
  note (.lowered source.name lowered.name lowered.layout.length lowered.instrCount)
  return lowered

/-- Lowers functions one after the other. -/
def functions (types : Registry) (signatures : SignatureTable) (entry : String) :
    List Tree.Function → Codegen (List Ir.Function)
  | [] => return []
  | first :: rest => do
    let lowered ← function types signatures entry first
    return lowered :: (← functions types signatures entry rest)

/-- Generates the code of a module. -/
def generate (source : Tree.Module) (types : Registry) (options : CodegenOptions) :
    Codegen Ir.Module := do
  let triple ← ofExcept (Platform.triple options.platform)
  let signatures ← ofExcept (SignatureTable.collect source types options.entry)
  note (.target triple signatures.size)
  let lowered ← functions types signatures options.entry source.functions
  let preamble ← match options.preamble with
    | some text => pure (.verbatim text)
    | none => ofExcept (Preamble.derive types signatures (lowered.map (·.name)))
  return { triple, preamble, globals := (← get).pool.globals, functions := lowered }

/-- Generates the code of a module and looks for faults in it. -/
def generateChecked (source : Tree.Module) (types : Registry) (options : CodegenOptions) :
    Codegen (Ir.Module × List Ir.Fault) := do
  let generated ← generate source types options
  let faults := generated.faults
  note (.checked generated.functions.length faults.length)
  return (generated, faults)

/-- The text of the code of a module, if it has no faults. -/
def emit (source : Tree.Module) (types : Registry) (options : CodegenOptions) :
    Codegen String := do
  let (generated, faults) ← generateChecked source types options
  unless faults.isEmpty do throw (.faultyCode faults)
  return generated.text

/-- What a generation of code gives, and what was noted on the way. -/
def run {α : Type} (steps : Codegen α) : Except CodegenError α × List Note :=
  match steps {} with
  | .ok value progress => (.ok value, progress.notes)
  | .error error progress => (.error error, progress.notes)

end Codegen

end LlvmBackend
