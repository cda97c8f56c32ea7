import LlvmBackend.Ir
import LlvmBackend.Registry

/-!
# Values

What emitted code can work with: a typed value, where it lives and who owns it.
-/

namespace LlvmBackend

/-- Where a value lives. -/
inductive Storage where
  /-- In an operand, without an address. -/
  | direct (operand : Operand)
  /-- Behind an address. -/
  | addressed (address : Operand)
  /-- Behind an address, and already loaded from there. -/
  | cached (address loaded : Operand)
  deriving DecidableEq, Repr

/-- Who owns a value. -/
inductive Binding where
  /-- Whoever consumes it: an expression made it. -/
  | temporary
  /-- A variable, a parameter or a container. -/
  | stable
  /-- The module: it is a literal. -/
  | constant
  /-- Whoever consumes it, but only on the paths on which the numbered flag holds. -/
  | conditional (flag : Nat)
  deriving DecidableEq, Repr

namespace Binding

/-- Whether the consumer of a value may have to tear it down. -/
def owns : Binding → Bool
  | .temporary | .conditional _ => true
  | .stable | .constant => false

/-- Ownership as a flag of emitted code. -/
def flag : Binding → Operand
  | .temporary => .bool true
  | .conditional flag => .temp flag
  | .stable | .constant => .bool false

end Binding

namespace Storage

/-- The address of a value that has one. -/
def address : Storage → Option Operand
  | .direct _ => none
  | .addressed address | .cached address _ => some address

/-- The same place without what was loaded from there. -/
def withoutCache : Storage → Storage
  | .cached address _ => .addressed address
  | storage => storage

end Storage

/-- A typed value of emitted code. -/
structure Value where
  type : TypeId
  storage : Storage
  binding : Binding
  deriving DecidableEq, Repr

namespace Value

/-- The result of an instruction. -/
def direct (type : TypeId) (operand : Operand) : Value := ⟨type, .direct operand, .temporary⟩

/-- The result of a call, which stands in storage of its own. -/
def temporary (type : TypeId) (address : Operand) : Value :=
  ⟨type, .addressed address, .temporary⟩

/-- What stands in storage that belongs to someone else. -/
def stable (type : TypeId) (address : Operand) : Value := ⟨type, .addressed address, .stable⟩

/-- A literal. -/
def constant (type : TypeId) (symbol : Operand) : Value := ⟨type, .addressed symbol, .constant⟩

def address (value : Value) : Option Operand := value.storage.address

/-- The same value as seen by someone who must not tear it down. -/
def borrowed (value : Value) : Value :=
  if value.binding.owns then ⟨value.type, value.storage.withoutCache, .stable⟩ else value

end Value

end LlvmBackend
