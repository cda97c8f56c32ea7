import LlvmBackend.Signature
import LlvmBackend.Value

/-!
# Callees

What a call in the source calls: a method that types share by convention, a function, or a method of
a given type; and which symbol that is for arguments of given types.
-/

namespace LlvmBackend

/-- What a call names. -/
inductive Callee where
  /-- The method of the argument's type that goes by a common name. -/
  | protocol (name method : String)
  | function (name : String)
  | method (type : TypeId) (name : String)
  deriving DecidableEq, Repr

/-- What a call calls, and the type of its result. -/
structure Target where
  symbol : String
  returns : TypeId
  deriving DecidableEq, Repr

namespace Callee

/-- The common names and the methods behind them. -/
def protocols : List (String × String) := [("bool", "__bool__"), ("str", "__str__")]

/-- The truth value of something. -/
def boolean : Callee := .protocol "bool" "__bool__"

/-- What a name in a call stands for; common names come first. -/
def resolve (name : String) (table : SignatureTable) : Except CodegenError Callee :=
  match protocols.lookup name with
  | some shared => .ok (.protocol name shared)
  | none => if (table.get? name).isSome then .ok (.function name) else .error (.unknownCallee name)

/-- The first parameter whose type differs from that of its argument, and that type. -/
def mismatch? (params args : List TypeId) : Option (TypeId × TypeId) :=
  (params.zip args).find? fun (param, arg) => param ≠ arg

/-- Binds a function to arguments of its parameters' types. -/
def bindFunction (types : Registry) (table : SignatureTable) (name : String)
    (args : List TypeId) : Except CodegenError Target :=
  match table.get? name with
  | none => .error (.unknownCallee name)
  | some signature =>
    if signature.params.length ≠ args.length then
      .error (.arityMismatch name signature.params.length args.length)
    else
      match mismatch? signature.params args with
      | some (param, arg) => .error (.operandMismatch name (types.name param) (types.name arg))
      | none => .ok ⟨signature.symbol, signature.returns⟩

/-- Binds a method of a type. -/
def bindMethod (types : Registry) (type : TypeId) (name : String) :
    Except CodegenError Target :=
  match types.method type name with
  | none => .error (.missingMethod (types.name type) name)
  | some entry => Target.mk entry.symbol <$> types.resolve entry.returns

/-- Binds a callee to arguments of the given types. An argument whose type lacks the method of a
    common name goes to the function of that name, if there is one. -/
def bind (callee : Callee) (types : Registry) (table : SignatureTable) (args : List TypeId) :
    Except CodegenError Target :=
  match callee with
  | .protocol name shared =>
    match args with
    | [receiver] =>
      if (types.method receiver shared).isNone && (table.get? name).isSome then
        bindFunction types table name args
      else bindMethod types receiver shared
    | _ => .error (.arityMismatch name 1 args.length)
  | .function name => bindFunction types table name args
  | .method type name => bindMethod types type name

end Callee

end LlvmBackend
