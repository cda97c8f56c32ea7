import LlvmBackend.Callee
import LlvmBackend.Codegen

/-! # Checking types

Which modules are well typed, by the registry, the functions that can be called and the types of
names alone. Names are bound in the order of the text, across branches and loops.
-/

namespace LlvmBackend.Checker

/-- The types of the names that are bound. -/
abbrev Env := String → Option TypeId

/-- Binds a name, over what it stood for. -/
def Env.bind (env : Env) (name : String) (type : TypeId) : Env :=
  fun asked => if asked = name then some type else env asked

/-- Goes on only if something holds. -/
def need (p : Prop) [Decidable p] : Option Unit := if p then some () else none

@[simp] theorem need_eq_some {p : Prop} [Decidable p] {u : Unit} : need p = some u ↔ p := by
  by_cases h : p <;> simp [need, h]

/-- The type of a value that is used: `void` has no values. -/
def valued (type : TypeId) : Option TypeId := if type = Registry.void then none else some type

@[simp] theorem valued_eq_some {type found : TypeId} :
    valued type = some found ↔ type ≠ Registry.void ∧ type = found := by
  unfold valued
  split <;> simp_all

section

variable (types : Registry) (signatures : SignatureTable)

/-- The type of the result of a call for arguments of given types. -/
def callType (callee : Callee) (args : List TypeId) : Option TypeId :=
  (callee.bind types signatures args).toOption.map Target.returns

/-- A value is a truth value, or there is a coercion that gives one. -/
def testable (type : TypeId) : Bool :=
  type = Registry.bool || (callType types signatures .boolean [type] >>= valued).isSome

/-! ## Expressions -/

mutual

/-- The type of an expression. Only a call can have type `void`. -/
def typeOf? (env : Env) : Expr → Option TypeId
  | .bool _ => some Registry.bool
  | .int _ => some Registry.int
  | .float _ => some Registry.float
  | .string _ => some Registry.string
  | .name name => env name
  | .binary op left right => do
    let left ← typeOf? env left >>= valued
    let right ← typeOf? env right >>= valued
    let entry ← types.method left op.method
    need (∀ argument ∈ entry.argument, types.lookup argument = some right)
    let result ← types.lookup entry.returns >>= valued
    return if op = .notEq then Registry.bool else result
  | .not operand => do
    let operand ← typeOf? env operand >>= valued
    need (testable types signatures operand)
    return Registry.bool
  | .and left right | .or left right => do
    let left ← typeOf? env left >>= valued
    need (testable types signatures left)
    let right ← typeOf? env right >>= valued
    if right = left then return left
    need (testable types signatures right)
    return Registry.bool
  | .ternary test onTrue onFalse => do
    let test ← typeOf? env test >>= valued
    need (testable types signatures test)
    let onTrue ← typeOf? env onTrue >>= valued
    let onFalse ← typeOf? env onFalse >>= valued
    need (onFalse = onTrue)
    return onTrue
  | .index container position => do
    let container ← typeOf? env container >>= valued
    let element ← types.element container
    let position ← typeOf? env position >>= valued
    need (position = Registry.int)
    valued element
  | .call callee args => do
    let callee ← (Callee.resolve callee signatures).toOption
    callType types signatures callee (← typesOf? env args)

/-- The types of arguments. -/
def typesOf? (env : Env) : List Expr → Option (List TypeId)
  | [] => some []
  | first :: rest => do
    let first ← typeOf? env first >>= valued
    let rest ← typesOf? env rest
    return first :: rest

end

/-- The type of an expression whose value is used. -/
def used? (env : Env) (expr : Expr) : Option TypeId := typeOf? types signatures env expr >>= valued

/-- An expression can be a condition. -/
def checkTest (env : Env) (test : Expr) : Option Unit := do
  need (testable types signatures (← used? types signatures env test))

/-! ## Statements -/

/-- A statement after which nothing is checked. -/
def isReturn : Stmt → Bool
  | .ret _ => true
  | _ => false

/-- What is returned fits the outcome of the function. Where there is no result to pass on, it is
    only checked for what it does. -/
def checkReturn (outcome : Outcome) (env : Env) : Option Expr → Option Unit
  | none => need (outcome = .status ∨ outcome = .result Registry.void)
  | some expr => do
    let type ← typeOf? types signatures env expr
    need (outcome = .status ∨ outcome = .result Registry.void ∨
      type ≠ Registry.void ∧ outcome = .result type)

/-- The type of what an iterator gives. -/
def elementOf? (source : TypeId) : Option TypeId := do
  let entry ← types.method source "__next__"
  types.lookup entry.returns >>= valued

variable (outcome : Outcome)

mutual

/-- Checks a statement and gives the types of names behind it. -/
def checkStmt (env : Env) : Stmt → Option Env
  | .assign target expr => return env.bind target (← used? types signatures env expr)
  | .ifChain arms => checkArms env arms
  | .whileLoop test body => do
    checkTest types signatures env test
    checkSuite env body
  | .forLoop target source body => do
    let source ← used? types signatures env source
    let element ← elementOf? types source
    checkSuite (env.bind target element) body
  | .ret expr => do
    checkReturn types signatures outcome env expr
    return env
  | .effect expr => do
    let _ ← typeOf? types signatures env expr
    return env

/-- Checks statements up to the first that returns. -/
def checkSuite (env : Env) : List Stmt → Option Env
  | [] => return env
  | first :: rest => do
    let env ← checkStmt env first
    if isReturn first then return env else checkSuite env rest

/-- Checks the arms of a chain up to the first without condition. -/
def checkArms (env : Env) : List Arm → Option Env
  | [] => return env
  | .mk none body :: _ => checkSuite env body
  | .mk (some test) body :: rest => do
    checkTest types signatures env test
    let env ← checkSuite env body
    checkArms env rest

end

/-! ## Functions and modules -/

/-- Binds the parameters of a function. -/
def bindParams (env : Env) : List Tree.Param → Option Env
  | [] => some env
  | param :: rest => do
    let type ← types.lookup param.type >>= valued
    bindParams (env.bind param.name type) rest

/-- The types of the names that the entry is given. -/
def entryEnv (arguments : TypeId) : Env :=
  (Env.bind (fun _ => none) "name" Registry.string).bind "args" arguments

/-- Checks a function. The entry has names of its own in the place of its parameters. -/
def checkFunction (entry : String) (function : Tree.Function) : Option Unit := do
  if function.name = entry then
    let arguments ← types.lookup argumentsType.name
    let _ ← checkSuite types signatures .status (entryEnv arguments) function.body
  else
    let returns ← types.lookup function.returns
    let env ← bindParams types (fun _ => none) function.params
    let _ ← checkSuite types signatures (.result returns) env function.body

end

/-- The types that methods name are there, so that the methods can be declared. -/
def Declarable (types : Registry) : Prop :=
  ∀ descriptor ∈ types.descriptors, ∀ method ∈ descriptor.methods.entries,
    (types.lookup method.2.returns).isSome ∧
      (method.1 ≠ "__next__" → ∀ argument ∈ method.2.argument, (types.lookup argument).isSome)

/-- A module is well typed: its signatures and its functions are, and what it needs to be declared
    can be. -/
structure WellTyped (source : Tree.Module) (types : Registry) (options : CodegenOptions) :
    Prop where
  functions : ∃ signatures, SignatureTable.collect source types options.entry = .ok signatures ∧
    ∀ function ∈ source.functions, (checkFunction types signatures options.entry function).isSome
  declarable : options.preamble = none → Declarable types

end LlvmBackend.Checker
