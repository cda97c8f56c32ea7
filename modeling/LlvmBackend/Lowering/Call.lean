import LlvmBackend.Lowering.Ownership

/-!
# Calls

Arguments go as their types say, as operands or as addresses; a result is written to storage whose
address is the last argument.
-/

namespace LlvmBackend.Lowering

variable (env : Surroundings)

/-- An argument as its type's convention wants it. -/
def passArg (arg : Value) : Lowering (TypedOperand × Value) :=
  if env.types.isByValue arg.type then obtainValue env arg else obtainAddress env arg

/-- The arguments in their order. -/
def passArgs : List Value → Lowering (List TypedOperand × List Value)
  | [] => return ([], [])
  | arg :: rest => do
    let (operand, arg) ← passArg env arg
    let (operands, rest) ← passArgs rest
    return (operand :: operands, arg :: rest)

/-- Tears down arguments in their order. -/
def releaseAll : List Value → Lowering Unit
  | [] => pure ()
  | arg :: rest => do
    release env arg
    releaseAll rest

/-- Storage for the result of a call. -/
def resultSlot (returns : TypeId) : Lowering (Option (TypedOperand × Value)) := do
  if returns = Registry.void then return none
  let type : IrType := ⟨env.types.ir returns⟩
  let slot ← temp
  emit (.alloca slot type)
  return some (⟨type.ptr, slot⟩, .temporary returns slot)

/-- Calls something and tears down the arguments that nobody else owns. -/
def dispatch (callee : Callee) (args : List Value) : Lowering (Option Value) := do
  let target ← ofExcept (callee.bind env.types env.signatures (args.map (·.type)))
  let (operands, args) ← passArgs env args
  let result ← resultSlot env target.returns
  emit (.call none .void target.symbol (operands ++ (result.map Prod.fst).toList))
  releaseAll env args
  return result.map Prod.snd

/-- The truth value of a value. -/
def coerceToBool (value : Value) : Lowering Value := do
  if value.type = Registry.bool then return value
  required (← dispatch env .boolean [value])

end LlvmBackend.Lowering
