import LlvmBackend.Lowering.Stmt
import LlvmBackend.Registry.Builtin

/-!
# Functions

A function takes its parameters as their types say and writes its result through a pointer. The
entry of a module becomes the entry of the process: it decodes the arguments of the process first
and gives back a status.
-/

namespace LlvmBackend

/-- The type of a parameter. -/
def Registry.paramIr (types : Registry) (type : TypeId) : IrType :=
  if types.isByValue type then ⟨types.ir type⟩ else IrType.ptr ⟨types.ir type⟩

/-- The generation of code for one function after the other. -/
abbrev Codegen := EStateM CodegenError Progress

namespace Lowering

/-- Lowers one function, from the state in which it starts to what its steps build. -/
def build (builder : Ir.Builder) (scopes : Scopes Value) (supply : Supply)
    (steps : Lowering Unit) : Codegen Ir.Function := fun progress =>
  match steps { toProgress := progress, builder, scopes, supply } with
  | .ok _ state => .ok state.builder.finish state.toProgress
  | .error error state => .error error state.toProgress

/-- Leaves a function at its end unless control already left it. -/
def leaveAtEnd (value : Option TypedOperand) : Lowering Unit := do
  unless ← isTerminated do terminate (.ret value)

/-! ## Functions that can be called -/

/-- The parameters of a function as far as they are known. -/
structure Opening where
  scopes : Scopes Value := .empty
  supply : Supply := {}
  params : List Ir.Param := []

/-- What the name of a parameter stands for. -/
def paramValue (types : Registry) (name : String) (type : TypeId) : Value where
  type
  storage := if types.isByValue type then .direct (.named name) else .addressed (.named name)
  binding := .stable

/-- Adds a parameter of the source. -/
def Opening.addParam (types : Registry) (function : String) (opening : Opening)
    (param : Tree.Param) : Except CodegenError Opening := do
  let type ← types.resolve param.type
  if type = Registry.void then throw (.voidValue function)
  return {
    scopes := opening.scopes.define param.name (paramValue types param.name type)
    supply := opening.supply.reserve param.name
    params := opening.params ++ [⟨types.paramIr type, param.name⟩] }

/-- Adds the parameter for the result, if there is one. -/
def Opening.addResult (types : Registry) (opening : Opening) (returns : TypeId) : Opening :=
  if returns = Registry.void then opening
  else { opening with
    supply := opening.supply.reserve resultName
    params := opening.params ++ [⟨IrType.ptr ⟨types.ir returns⟩, resultName⟩] }

/-- Lowers a function that can be called. -/
def lowerFunction (types : Registry) (signatures : SignatureTable) (function : Tree.Function) :
    Codegen Ir.Function := fun progress =>
  let opened : Except CodegenError (TypeId × Opening) := do
    let returns ← types.resolve function.returns
    let opening ← function.params.foldlM (Opening.addParam types function.name) {}
    return (returns, opening.addResult types returns)
  match opened with
  | .error error => .error error progress
  | .ok (returns, opening) =>
    let builder : Ir.Builder :=
      { name := function.name, returns := .void, params := opening.params }
    build builder opening.scopes.push opening.supply (do
      suite ⟨types, signatures, .result returns⟩ function.body
      leaveAtEnd none) progress

/-! ## The entry -/

/-- The symbol that a process starts with. -/
def entrySymbol : String := "main"

/-- The symbol that decodes the arguments of a process. -/
def argvSymbol : String := "argv"

/-- The type of a pointer to pointers to bytes. -/
def argvType : IrType := IrType.i8.ptr.ptr

/-- The names that the entry uses itself. -/
def entryNames : List String := ["argc", "argv", "args$", "a0.p", "a1.p", "name", "args"]

/-- Decodes the arguments of the process and binds `name` to the first and `args` to the rest. -/
def openEntry (types : Registry) (arguments : TypeId) : Lowering Unit := do
  let text : IrType := ⟨types.ir Registry.string⟩
  let texts : IrType := ⟨types.ir arguments⟩
  let decoded := Operand.named "args$"
  let first := Operand.named "a0.p"
  let rest := Operand.named "a1.p"
  emit (.alloca decoded texts)
  emit (.call none .void argvSymbol
    [⟨.i32, .named "argc"⟩, ⟨argvType, .named "argv"⟩, ⟨texts.ptr, decoded⟩])
  emit (.load first texts decoded)
  emit (.elementPtr (.named "name") text first [⟨.i64, .int 0⟩])
  emit (.elementPtr rest text first [⟨.i64, .int 1⟩])
  emit (.alloca (.named "args") texts)
  emit (.store ⟨texts, rest⟩ (.named "args"))
  define "name" (.stable Registry.string (.named "name"))
  define "args" (.stable arguments (.named "args"))
  modify fun state => { state with scopes := state.scopes.push }

/-- Lowers the entry of a module. -/
def lowerEntry (types : Registry) (signatures : SignatureTable) (function : Tree.Function) :
    Codegen Ir.Function := fun progress =>
  match types.resolve argumentsType.name with
  | .error error => .error error progress
  | .ok arguments =>
    let builder : Ir.Builder :=
      { name := entrySymbol, returns := .i32, params := [⟨.i32, "argc"⟩, ⟨argvType, "argv"⟩]
        attributes := ["nounwind", "ssp"] }
    build builder .empty (entryNames.foldl Supply.reserve {}) (do
      openEntry types arguments
      suite ⟨types, signatures, .status⟩ function.body
      leaveAtEnd (some success)) progress

end Lowering

end LlvmBackend
