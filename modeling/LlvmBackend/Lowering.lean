import LlvmBackend.Callee
import LlvmBackend.Ir.Builder
import LlvmBackend.Ir.Printer
import LlvmBackend.Pool
import LlvmBackend.Scopes
import LlvmBackend.Supply

/-!
# Lowering of a function

The state in which a function is lowered and the steps that change it. A step that fails still
leaves a state, so that what was noted until then is known.
-/

namespace LlvmBackend

/-- Something worth telling about the generation of code. -/
inductive Note where
  | target (triple : String) (signatures : Nat)
  | slot (function : String) (slot : Operand) (name type : String)
  | lowered (function symbol : String) (blocks instrs : Nat)
  | checked (functions faults : Nat)
  deriving DecidableEq, Repr

/-- The text of a note. -/
def Note.message : Note → String
  | .target triple signatures => s!"target `{triple}`, {signatures} callable signature(s)"
  | .slot function place name type =>
    s!"`{function}`: slot {place.text} for `{name}: {type}`"
  | .lowered function symbol blocks instrs =>
    s!"lowered `{function}` as @{symbol}: {blocks} block(s), {instrs} instruction(s)"
  | .checked functions faults => s!"{functions} function(s) checked, {faults} error(s)"

/-- What one function leaves to the next. -/
structure Progress where
  pool : Pool := {}
  notes : List Note := []

/-- What a function gives back. -/
inductive Outcome where
  /-- The status of the process, which is always success. -/
  | status
  /-- A value of a type, by a pointer to its place; nothing if the type is `void`. -/
  | result (type : TypeId)
  deriving DecidableEq, Repr

/-- What stays the same throughout a function. -/
structure Surroundings where
  types : Registry
  signatures : SignatureTable
  outcome : Outcome

/-- The state in the middle of a function. -/
structure FunctionState extends Progress where
  builder : Ir.Builder
  scopes : Scopes Value := .empty
  supply : Supply := {}
  /-- The slots of variables. -/
  slots : List Operand := []

/-- A step in the lowering of a function. -/
abbrev Lowering := EStateM CodegenError FunctionState

namespace Lowering

/-! ## Single steps -/

def ofExcept {α : Type} : Except CodegenError α → Lowering α
  | .ok value => pure value
  | .error error => throw error

/-- The name under which the function is emitted. -/
def functionName : Lowering String := return (← get).builder.name

/-- The number of the next temporary. -/
def tempNumber : Lowering Nat :=
  modifyGet fun state =>
    let (n, supply) := state.supply.temp
    (n, { state with supply })

/-- The next temporary. -/
def temp : Lowering Operand := return .temp (← tempNumber)

/-- Adds a literal to the pool. -/
def literal (add : Pool → Value × Pool) : Lowering Value :=
  modifyGet fun state =>
    let (value, pool) := add state.pool
    (value, { state with pool })

/-- Creates a block with the next label. -/
def newBlock (hint : String) : Lowering BlockId :=
  modifyGet fun state =>
    let (label, supply) := state.supply.label
    let (block, builder) := state.builder.createBlock label hint
    (block, { state with supply, builder })

/-- Goes on at a block. -/
def switchTo (block : BlockId) : Lowering Unit :=
  modify fun state => { state with builder := state.builder.switchTo block }

def currentBlock : Lowering BlockId := return (← get).builder.current

/-- Adds an instruction to the block in use. -/
def emit (instr : Instr) : Lowering Unit := do
  let builder ← ofExcept ((← get).builder.emit instr)
  modify fun state => { state with builder }

/-- Leaves the block in use. -/
def terminate (terminator : Terminator) : Lowering Unit := do
  let builder ← ofExcept ((← get).builder.terminate terminator)
  modify fun state => { state with builder }

/-- Whether control already left the block in use. -/
def isTerminated : Lowering Bool := return (← get).builder.isTerminated

/-- Goes on at a block unless control already left the block in use. -/
def branchIfOpen (target : BlockId) : Lowering Unit := do
  unless ← isTerminated do terminate (.br target)

/-- Binds a name in the scope in use. -/
def define (name : String) (value : Value) : Lowering Unit :=
  modify fun state => { state with scopes := state.scopes.define name value }

/-- What a name stands for. -/
def lookup (name : String) : Lowering Value := do
  match (← get).scopes.lookup name with
  | some value => return value
  | none => throw (.unresolvedName name (← functionName))

def note (message : Note) : Lowering Unit :=
  modify fun state => { state with notes := state.notes ++ [message] }

/-! ## Values that are used -/

/-- The result of a call that is used; `void` has none. -/
def required (value : Option Value) : Lowering Value := do
  match value with
  | some value => return value
  | none => throw (.voidValue (← functionName))

variable (env : Surroundings)

/-- The type of a value that is read or stored. -/
def valueIr (type : TypeId) : Lowering IrType := do
  if type = Registry.void then throw (.voidValue (← functionName))
  return ⟨env.types.ir type⟩

/-- A value as an operand, loaded if it stands in storage. A load from owned storage is kept: no
    one else writes there. -/
def obtainValue (value : Value) : Lowering (TypedOperand × Value) := do
  let type ← valueIr env value.type
  match value.storage with
  | .direct operand => return (⟨type, operand⟩, value)
  | .cached _ loaded => return (⟨type, loaded⟩, value)
  | .addressed address =>
    let dest ← temp
    emit (.load dest type address)
    let storage := if value.binding.owns then .cached address dest else value.storage
    return (⟨type, dest⟩, { value with storage })

/-- The operand of a value. -/
def operandOf (value : Value) : Lowering Operand := return (← obtainValue env value).1.operand

/-- The address of a value, which gets storage of its own if it has none. -/
def obtainAddress (value : Value) : Lowering (TypedOperand × Value) := do
  let type ← valueIr env value.type
  match value.storage with
  | .addressed address | .cached address _ => return (⟨type.ptr, address⟩, value)
  | .direct operand =>
    let slot ← temp
    emit (.alloca slot type)
    emit (.store ⟨type, operand⟩ slot)
    return (⟨type.ptr, slot⟩, { value with storage := .addressed slot })

end Lowering

end LlvmBackend
