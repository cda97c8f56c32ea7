import LlvmBackend.Ir.Verifier

/-!
# Errors of code generation

What keeps a module from being lowered. The backend expects checked modules, so each of these points
at a defect of the module or of the registry.
-/

namespace LlvmBackend

/-- Why code cannot be generated. -/
inductive CodegenError where
  | unresolvedName (name function : String)
  | missingMethod (type method : String)
  | operandMismatch (callee expected found : String)
  | branchTypeMismatch (onTrue onFalse : String)
  | notIndexable (type : String)
  | voidValue (function : String)
  | unknownCallee (name : String)
  | arityMismatch (name : String) (expected found : Nat)
  | unknownType (name : String)
  | unsupportedPlatform (platform : String)
  | returnMismatch (function expected found : String)
  | blockAlreadyTerminated (function block : String)
  | faultyCode (faults : List Ir.Fault)
  deriving DecidableEq, Repr

/-- The message about an error, with its number. -/
def CodegenError.message : CodegenError → String
  | .unresolvedName name function => s!"CG0001: unresolved name `{name}` in `{function}`"
  | .missingMethod type method => s!"CG0002: type `{type}` has no method `{method}`"
  | .operandMismatch callee expected found =>
    s!"CG0003: `{callee}` expects `{expected}`, found `{found}`"
  | .branchTypeMismatch onTrue onFalse =>
    s!"CG0004: conditional branches yield `{onTrue}` and `{onFalse}`"
  | .notIndexable type => s!"CG0005: type `{type}` is not indexable"
  | .voidValue function => s!"CG0006: `void` value used as an operand in `{function}`"
  | .unknownCallee name => s!"CG0007: unknown callee `{name}`"
  | .arityMismatch name expected found =>
    s!"CG0008: call to `{name}` expects {expected} argument(s), found {found}"
  | .unknownType name => s!"CG0009: unknown type `{name}`"
  | .unsupportedPlatform platform => s!"CG0010: unsupported platform `{platform}`"
  | .returnMismatch function expected found =>
    s!"CG0011: `{function}` returns `{expected}`, found `{found}`"
  | .blockAlreadyTerminated function block =>
    s!"CG0012: block `{block}` in `{function}` is already terminated"
  | .faultyCode faults => s!"CG0013: IR verification failed with {faults.length} error(s)"

end LlvmBackend
