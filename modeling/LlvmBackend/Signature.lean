import LlvmBackend.CodegenError
import LlvmBackend.Registry
import LlvmBackend.Tree

/-!
# Signatures

What can be called by name: the functions of the library and those of the module, which hide library
functions of the same name. The function that a process starts with cannot be called.
-/

namespace LlvmBackend

/-- The type of a name. -/
def Registry.resolve (types : Registry) (name : String) : Except CodegenError TypeId :=
  match types.lookup name with
  | some id => .ok id
  | none => .error (.unknownType name)

/-- A function that can be called. -/
structure Signature where
  symbol : String
  returns : TypeId
  params : List TypeId
  /-- Whether it comes from the library. -/
  builtin : Bool
  deriving DecidableEq, Repr

namespace Signature

/-- The functions of the library: names, types of results, types of parameters. -/
def library : List (String × String × List String) :=
  [("print", "void", ["str"]), ("str", "str", ["int"]),
   ("range", "intiter", ["int", "int", "int"])]

/-- The signature of a function from the names of its types. -/
def ofNames (types : Registry) (symbol returns : String) (params : List String)
    (builtin : Bool) : Except CodegenError Signature := do
  let returns ← types.resolve returns
  let params ← params.mapM types.resolve
  return { symbol, returns, params, builtin }

end Signature

/-- The functions that can be called, by their names. -/
abbrev SignatureTable := NameMap Signature

namespace SignatureTable

/-- Enters functions one after the other. -/
def enterAll (table : SignatureTable) :
    List (String × Except CodegenError Signature) → Except CodegenError SignatureTable
  | [] => .ok table
  | (name, signature) :: rest => do enterAll (table.insert name (← signature)) rest

/-- The functions of the library. -/
def builtins (types : Registry) : Except CodegenError SignatureTable :=
  enterAll .empty <| Signature.library.map fun (name, returns, params) =>
    (name, Signature.ofNames types name returns params true)

/-- The functions of the library and those of a module, but for its entry. -/
def collect (module : Tree.Module) (types : Registry) (entry : String) :
    Except CodegenError SignatureTable := do
  let table ← builtins types
  enterAll table <| (module.functions.filter (·.name ≠ entry)).map fun function =>
    (function.name,
      Signature.ofNames types function.name function.returns (function.params.map (·.type)) false)

end SignatureTable

end LlvmBackend
