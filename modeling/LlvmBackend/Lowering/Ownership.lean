import LlvmBackend.Lowering

/-!
# Ownership of values

Who tears a value down: its consumer if an expression made it, and nobody if it belongs to a
variable, a container or the module. Where two paths meet that disagree, a flag tells.
-/

namespace LlvmBackend.Lowering

/-- The method that tears a value down. -/
def teardown : String := "__del__"

variable (env : Surroundings)

/-- The call that tears down what stands at an address, for a type that asks for it. -/
def teardownCall (type : TypeId) (address : Operand) : Option Instr := do
  let entry ← env.types.method type teardown
  return .call none .void entry.symbol [⟨IrType.ptr ⟨env.types.ir type⟩, address⟩]

/-- Emits an instruction that is carried out only if a flag holds. -/
def guarded (flag : Nat) (instr : Instr) : Lowering Unit := do
  let owned ← newBlock "release"
  let fin ← newBlock "release-fin"
  terminate (.condBr (.temp flag) owned fin)
  switchTo owned
  emit instr
  terminate (.br fin)
  switchTo fin

/-- Tears down a value that is not needed any more, as far as its consumer owns it. -/
def release (value : Value) : Lowering Unit :=
  match value.address.bind (teardownCall env value.type) with
  | none => pure ()
  | some call =>
    match value.binding with
    | .temporary => emit call
    | .conditional flag => guarded flag call
    | .stable | .constant => pure ()

/-- The owner of a value that comes from one of two blocks. It is told by a flag only if the paths
    disagree and the type is torn down at all. -/
def mergeBinding (type : TypeId) (first second : Binding × BlockId) : Lowering Binding := do
  if first.1 = .temporary ∧ second.1 = .temporary then return .temporary
  let disposable := (env.types.method type teardown).isSome
  if !disposable || (!first.1.owns && !second.1.owns) then return .stable
  let flag ← tempNumber
  emit (.phi (.temp flag) .i1 [(first.1.flag, first.2), (second.1.flag, second.2)])
  return .conditional flag

end LlvmBackend.Lowering
