import LlvmBackend.Lowering.Expr

/-!
# Statements

Statements run one after the other; what comes after a `return` is never reached and left out.
-/

namespace LlvmBackend.Lowering

/-- The method by which a loop asks for the next element. -/
def next : String := "__next__"

/-- The name of the parameter that points to the place of a function's result. -/
def resultName : String := "lang.res"

/-- Success, as the status of a process. -/
def success : TypedOperand := ⟨.i32, .int 0⟩

variable (env : Surroundings)

/-- The slot that a name already has in the scope in use, if it fits the type. -/
def reusableSlot? (state : FunctionState) (name : String) (type : TypeId) : Option Operand := do
  let known ← state.scopes.lookupLocal name
  let slot ← known.address
  guard (known.type = type ∧ slot ∈ state.slots)
  return slot

/-- A new slot for a variable, at the top of the function. -/
def newSlot (name : String) (type : TypeId) : Lowering Operand := do
  let ir ← valueIr env type
  let slot ← modifyGet fun state =>
    let (storage, supply) := state.supply.uniqueName name
    let slot := Operand.named storage
    (slot, { state with
      supply, slots := slot :: state.slots, builder := state.builder.hoist (.alloca slot ir) })
  note (.slot (← functionName) slot name (env.types.name type))
  return slot

/-- The slot of a variable: the one it has, or a new one if that does not fit. -/
def variableSlot (name : String) (type : TypeId) : Lowering Operand := do
  match reusableSlot? (← get) name type with
  | some slot => return slot
  | none => newSlot env name type

/-- Stores a value in a variable. -/
def assign (target : String) (value : Lowering Value) : Lowering Unit := do
  let (operand, value) ← obtainValue env (← value)
  let slot ← variableSlot env target value.type
  emit (.store operand slot)
  define target (.stable value.type slot)

/-- Runs a body as long as a condition holds. -/
def loopWhile (condition : Lowering Operand) (body : Lowering Unit) : Lowering Unit := do
  let head ← newBlock "while-head"
  let bodyBlock ← newBlock "while-body"
  let fin ← newBlock "while-end"
  terminate (.br head)
  switchTo head
  let flag ← condition
  terminate (.condBr flag bodyBlock fin)
  switchTo bodyBlock
  body
  branchIfOpen head
  switchTo fin

/-- The method that gives the next element of an iterator, and the type of its elements. -/
def iteration (source : TypeId) : Lowering (String × TypeId) := do
  match env.types.method source next with
  | none => throw (.missingMethod (env.types.name source) next)
  | some entry => return (entry.symbol, ← ofExcept (env.types.resolve entry.returns))

/-- Runs a body for each element of an iterator: the iterator writes it to the slot of the variable
    and says whether there was one. -/
def loopFor (target : String) (source : Lowering Value) (body : Lowering Unit) :
    Lowering Unit := do
  let source ← source
  let (symbol, element) ← iteration env source.type
  let (iterator, source) ← obtainAddress env source
  let slot ← variableSlot env target element
  let pointer := (← valueIr env element).ptr
  define target (.stable element slot)
  let head ← newBlock "for-head"
  let bodyBlock ← newBlock "for-body"
  let fin ← newBlock "for-end"
  terminate (.br head)
  switchTo head
  let more ← temp
  emit (.call (some more) .i1 symbol [iterator, ⟨pointer, slot⟩])
  terminate (.condBr more bodyBlock fin)
  switchTo bodyBlock
  body
  branchIfOpen head
  switchTo fin
  release env source

/-- Reports a result of the wrong type. -/
def refuseReturn {α : Type} (expected found : TypeId) : Lowering α := do
  throw (.returnMismatch (← functionName) (env.types.name expected) (env.types.name found))

/-- Writes the result of a function and leaves it. -/
def returnValue (expected : TypeId) (value : Value) : Lowering Unit := do
  if value.type ≠ expected then refuseReturn env expected value.type
  let (operand, _) ← obtainValue env value
  emit (.store operand (.named resultName))
  terminate (.ret none)

/-- Leaves a function. A function without result, and the entry, drop the value they return. -/
def leave (expr : Option Expr) : Lowering Unit := do
  match env.outcome, expr with
  | .status, expr =>
    if let some expr := expr then effect env expr
    terminate (.ret (some success))
  | .result expected, none =>
    if expected ≠ Registry.void then refuseReturn env expected Registry.void
    terminate (.ret none)
  | .result expected, some expr =>
    if expected = Registry.void then
      effect env expr
      terminate (.ret none)
    else
      returnValue env expected (← value env expr)

/-- Where a chain of conditions goes when one does not hold: to what the next arm starts with, or
    behind the chain. -/
def nextArm (fin : BlockId) (index : Nat) : List Arm → Lowering BlockId
  | [] => return fin
  | .mk (some _) _ :: _ => newBlock s!"if-cond-{index}"
  | .mk none _ :: _ => newBlock s!"if-suite-{index}"

/-- The arm without condition of a chain: the block in use is its own. -/
def lastArm (fin : BlockId) (body : Lowering Unit) : Lowering Unit := do
  body
  branchIfOpen fin
  switchTo fin

/-- An arm with a condition, up to where the chain goes on when it does not hold. -/
def guardedArm (fin : BlockId) (index : Nat) (rest : List Arm) (condition : Lowering Operand)
    (body : Lowering Unit) : Lowering Unit := do
  let flag ← condition
  let suite ← newBlock s!"if-suite-{index}"
  let otherwise ← nextArm fin (index + 1) rest
  terminate (.condBr flag suite otherwise)
  switchTo suite
  body
  branchIfOpen fin
  switchTo otherwise

mutual

/-- A statement. -/
def stmt : Stmt → Lowering Unit
  | .assign target expr => assign env target (value env expr)
  | .ifChain [] => do
    let fin ← newBlock "if-fin"
    terminate (.br fin)
    switchTo fin
  | .ifChain (first :: rest) => do
    let fin ← newBlock "if-fin"
    arms fin 0 (first :: rest)
  | .whileLoop test body => loopWhile (condition env (value env test)) (suite body)
  | .forLoop target source body => loopFor env target (value env source) (suite body)
  | .ret expr => leave env expr
  | .effect expr => effect env expr

/-- Statements up to the first that leaves the function. -/
def suite : List Stmt → Lowering Unit
  | [] => return ()
  | first :: rest => do
    unless ← isTerminated do
      stmt first
      suite rest

/-- The arms of a chain of conditions up to the first without condition. -/
def arms (fin : BlockId) : Nat → List Arm → Lowering Unit
  | _, [] => return ()
  | _, .mk none body :: _ => lastArm fin (suite body)
  | index, .mk (some test) body :: rest => do
    guardedArm fin index rest (condition env (value env test)) (suite body)
    arms fin (index + 1) rest

end

end LlvmBackend.Lowering
