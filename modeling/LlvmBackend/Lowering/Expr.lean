import LlvmBackend.Lowering.Call

/-!
# Expressions

Operands and arguments are evaluated from left to right. Each kind of expression is a step made of
the steps for its parts, and `operand?` puts them together along the tree.
-/

namespace LlvmBackend.Lowering

variable (env : Surroundings)

/-- A value as the condition of a branch. -/
def condition (value : Lowering Value) : Lowering Operand := do
  operandOf env (← coerceToBool env (← value))

/-- The opposite of a truth value. -/
def negate (value : Value) : Lowering Value := do
  let flag ← operandOf env value
  let dest ← temp
  emit (.select dest flag ⟨.i1, .bool false⟩ ⟨.i1, .bool true⟩)
  return .direct Registry.bool dest

/-- Checks that an operand has the type that a method names, if it names one. -/
def checkArgument (entry : MethodEntry) (found : TypeId) : Lowering Unit := do
  match entry.argument with
  | none => return ()
  | some argument =>
    let expected ← ofExcept (env.types.resolve argument)
    if expected ≠ found then
      throw (.operandMismatch entry.symbol (env.types.name expected) (env.types.name found))

/-- An operator calls a method of its left operand. -/
def binary (op : BinaryOperator) (left right : Lowering Value) : Lowering Value := do
  let left ← left
  let right ← right
  match env.types.method left.type op.method with
  | none => throw (.missingMethod (env.types.name left.type) op.method)
  | some entry =>
    checkArgument env entry right.type
    let result ← required (← dispatch env (.method left.type op.method) [left, right])
    if op = .notEq then negate env result else return result

/-- Which truth value of its left operand makes a connective look at the right one. -/
inductive Connective where
  | and
  | or
  deriving DecidableEq, Repr

namespace Connective

/-- What the block of the right operand is for. -/
def rightHint : Connective → String
  | .and => "and-true"
  | .or => "or-false"

/-- What the block that passes the right operand over is for. -/
def skipHint : Connective → String
  | .and => "and-false"
  | .or => "or-true"

/-- What the block where both ways meet is for. -/
def joinHint : Connective → String
  | .and => "and-fin"
  | .or => "or-fin"

/-- Goes on at the right operand or passes it over. -/
def branch (connective : Connective) (flag : Operand) (right skip : BlockId) : Terminator :=
  match connective with
  | .and => .condBr flag right skip
  | .or => .condBr flag skip right

end Connective

/-- Joins two values of one type that stand at addresses, each with the block it comes from. -/
def joinAddresses (type : TypeId) (first second : Operand × Binding × BlockId) :
    Lowering Value := do
  let pointer := (← valueIr env type).ptr
  let dest ← temp
  emit (.phi dest pointer [(first.1, first.2.2), (second.1, second.2.2)])
  let binding ← mergeBinding env type first.2 second.2
  return ⟨type, .addressed dest, binding⟩

/-- The rest of a connective whose operands have one type: the result is one of them. The left one
    is torn down as soon as the right one takes its place. -/
def connectAlike (left right : Value) (skip join : BlockId) : Lowering Value := do
  let (rightAddress, _) ← obtainAddress env right
  release env left
  let rightEnd ← currentBlock
  terminate (.br join)
  switchTo skip
  let (leftAddress, left) ← obtainAddress env left
  terminate (.br join)
  switchTo join
  joinAddresses env left.type (leftAddress.operand, left.binding, skip)
    (rightAddress.operand, right.binding, rightEnd)

/-- The rest of a connective whose operands differ in type: the result is a truth value, and the
    left operand is torn down behind it. -/
def connectFlags (left right : Value) (leftFlag : Operand) (skip join : BlockId) :
    Lowering Value := do
  let rightFlag ← operandOf env (← coerceToBool env right)
  let rightEnd ← currentBlock
  terminate (.br join)
  switchTo skip
  terminate (.br join)
  switchTo join
  let dest ← temp
  emit (.phi dest .i1 [(leftFlag, skip), (rightFlag, rightEnd)])
  release env left
  return .direct Registry.bool dest

/-- A connective evaluates its right operand only if the left one does not decide. -/
def connect (connective : Connective) (left right : Lowering Value) : Lowering Value := do
  let left ← left
  let leftFlag ← operandOf env (← coerceToBool env left.borrowed)
  let rightBlock ← newBlock connective.rightHint
  let skip ← newBlock connective.skipHint
  let join ← newBlock connective.joinHint
  terminate (connective.branch leftFlag rightBlock skip)
  switchTo rightBlock
  let right ← right
  if right.type = left.type then connectAlike env left right skip join
  else connectFlags env left right leftFlag skip join

/-- One of two values of one type, by a condition. -/
def choose (condition : Lowering Operand) (onTrue onFalse : Lowering Value) :
    Lowering Value := do
  let flag ← condition
  let trueBlock ← newBlock "ternary-if"
  let falseBlock ← newBlock "ternary-else"
  let fin ← newBlock "ternary-fin"
  terminate (.condBr flag trueBlock falseBlock)
  switchTo trueBlock
  let onTrue ← onTrue
  let (trueAddress, onTrue) ← obtainAddress env onTrue
  let trueEnd ← currentBlock
  terminate (.br fin)
  switchTo falseBlock
  let onFalse ← onFalse
  if onFalse.type ≠ onTrue.type then
    throw (.branchTypeMismatch (env.types.name onTrue.type) (env.types.name onFalse.type))
  let (falseAddress, onFalse) ← obtainAddress env onFalse
  let falseEnd ← currentBlock
  terminate (.br fin)
  switchTo fin
  joinAddresses env onTrue.type (trueAddress.operand, onTrue.binding, trueEnd)
    (falseAddress.operand, onFalse.binding, falseEnd)

/-- An element of a container, where it stands. -/
def element (container position : Lowering Value) : Lowering Value := do
  let container ← container
  match env.types.element container.type with
  | none => throw (.notIndexable (env.types.name container.type))
  | some element =>
    let position ← position
    if position.type ≠ Registry.int then
      throw (.operandMismatch (env.types.name container.type ++ "[]")
        (env.types.name Registry.int) (env.types.name position.type))
    let type ← valueIr env element
    let base ← operandOf env container
    let (offset, position) ← obtainValue env position
    let dest ← temp
    emit (.elementPtr dest type base [offset])
    release env position
    return .stable element dest

/-- A call by name, looked up before its arguments are evaluated. -/
def call (callee : String) (args : Lowering (List Value)) : Lowering (Option Value) := do
  let callee ← ofExcept (Callee.resolve callee env.signatures)
  dispatch env callee (← args)

mutual

/-- The value of an expression; a call of a function without result has none. -/
def operand? : Expr → Lowering (Option Value)
  | .bool value => some <$> literal (·.bool env.types value)
  | .int value => some <$> literal (·.int env.types value)
  | .float value => some <$> literal (·.float env.types value)
  | .string value => some <$> literal (·.string env.types value)
  | .name name => some <$> lookup name
  | .binary op left right =>
    some <$> binary env op (operand? left >>= required) (operand? right >>= required)
  | .not operand => some <$> do
    let value ← operand? operand >>= required
    negate env (← coerceToBool env value)
  | .and left right =>
    some <$> connect env .and (operand? left >>= required) (operand? right >>= required)
  | .or left right =>
    some <$> connect env .or (operand? left >>= required) (operand? right >>= required)
  | .ternary test onTrue onFalse =>
    some <$> choose env (condition env (operand? test >>= required))
      (operand? onTrue >>= required) (operand? onFalse >>= required)
  | .index container position =>
    some <$> element env (operand? container >>= required) (operand? position >>= required)
  | .call callee args => call env callee (operands args)

/-- The values of expressions, from left to right. -/
def operands : List Expr → Lowering (List Value)
  | [] => return []
  | first :: rest => do
    let value ← operand? first >>= required
    return value :: (← operands rest)

end

/-- The value of an expression that is used. -/
def value (expr : Expr) : Lowering Value := operand? env expr >>= required

/-- An expression for what it does. -/
def effect (expr : Expr) : Lowering Unit := discard (operand? env expr)

end LlvmBackend.Lowering
