import LlvmBackend.Lowering.Function

/-!
# Derived preambles

The named types of a registry and a declaration for every symbol of a registry and of the library
that a module does not define itself.
-/

namespace LlvmBackend.Preamble

variable (types : Registry)

/-- The named types of the registry. -/
def typeDefs : List Ir.TypeDef :=
  types.descriptors.filterMap fun descriptor => descriptor.layout.map fun body =>
    ⟨descriptor.ir, body⟩

/-- The parameter for a result. -/
def resultParam (returns : TypeId) : List IrType :=
  if returns = Registry.void then [] else [IrType.ptr ⟨types.ir returns⟩]

/-- The declaration of the method by which loops go on: it takes an iterator and a place for an
    element by address. -/
def nextDeclaration (receiver : TypeId) (symbol : String) (element : TypeId) :
    Ir.Declaration where
  symbol
  returns := .i1
  params := [IrType.ptr ⟨types.ir receiver⟩, IrType.ptr ⟨types.ir element⟩]

/-- The parameter for a method's second operand. -/
def argumentParam (entry : MethodEntry) : Except CodegenError (List IrType) :=
  match entry.argument with
  | none => return []
  | some argument => return [types.paramIr (← types.resolve argument)]

/-- The declaration of a method of a type. -/
def methodDeclaration (receiver : TypeId) (name : String) (entry : MethodEntry) :
    Except CodegenError Ir.Declaration := do
  let returns ← types.resolve entry.returns
  if name = Lowering.next then return nextDeclaration types receiver entry.symbol returns
  let argument ← argumentParam types entry
  return {
    symbol := entry.symbol
    returns := .void
    params := types.paramIr receiver :: argument ++ resultParam types returns }

/-- The declarations of all methods, type by type and in the order of their names. -/
def methodDeclarations : Except CodegenError (List Ir.Declaration) :=
  let methods := types.ids.flatMap fun id =>
    (types.describe id).methods.entries.map fun (name, entry) => (id, name, entry)
  methods.mapM fun (id, name, entry) => methodDeclaration types id name entry

/-- The declaration of a function of the library. -/
def libraryDeclaration (signature : Signature) : Ir.Declaration where
  symbol := signature.symbol
  returns := .void
  params := signature.params.map types.paramIr ++ resultParam types signature.returns

/-- The declaration of the function that decodes the arguments of a process. -/
def argvDeclaration : Ir.Declaration where
  symbol := Lowering.argvSymbol
  returns := .void
  params := [.i32, Lowering.argvType, IrType.ptr (IrType.ptr ⟨types.ir Registry.string⟩)]

/-- The first declaration of each symbol that is not among the given ones. -/
def firstDeclarations : List String → List Ir.Declaration → List Ir.Declaration
  | _, [] => []
  | seen, declaration :: rest =>
    if declaration.symbol ∈ seen then firstDeclarations seen rest
    else declaration :: firstDeclarations (declaration.symbol :: seen) rest

/-- The preamble of a module that defines the given symbols. -/
def derive (signatures : SignatureTable) (defined : List String) :
    Except CodegenError Ir.Preamble := do
  let methods ← methodDeclarations types
  let library := (signatures.values.filter (·.builtin)).map (libraryDeclaration types)
  return .derived (typeDefs types)
    (firstDeclarations defined (methods ++ library ++ [argvDeclaration types]))

end LlvmBackend.Preamble
