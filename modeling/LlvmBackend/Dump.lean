import LlvmBackend.Signature
import LlvmBackend.Text.Table

/-!
# Tables of types and signatures

What a registry and a table of signatures hold, for a reader.
-/

namespace LlvmBackend

/-- The names of methods in their order. -/
def TypeDescriptor.methodNames (descriptor : TypeDescriptor) : String :=
  " ".intercalate descriptor.methods.names

/-- How values of a type are passed, in a word. -/
def Convention.word : Convention → String
  | .byValue => "value"
  | .byAddress => "address"

/-- The row of a type. -/
def TypeDescriptor.row (descriptor : TypeDescriptor) : List String :=
  [descriptor.name, descriptor.ir, descriptor.convention.word, descriptor.layout.getD "-",
    descriptor.element.getD "-", descriptor.methodNames]

/-- The table of the types of a registry. -/
def Registry.table (types : Registry) : Text.Table where
  headers := ["Type", "IR", "Passed by", "Layout", "Element", "Methods"]
  rows := types.descriptors.map TypeDescriptor.row

/-- The row of a function that can be called. -/
def Signature.row (types : Registry) (name : String) (signature : Signature) : List String :=
  [name, "@" ++ signature.symbol, ", ".intercalate (signature.params.map types.name),
    types.name signature.returns, if signature.builtin then "builtin" else "module"]

/-- The table of the functions that can be called. -/
def SignatureTable.table (types : Registry) (signatures : SignatureTable) : Text.Table where
  headers := ["Function", "Symbol", "Params", "Returns", "Origin"]
  rows := signatures.entries.map fun (name, signature) => signature.row types name

end LlvmBackend
