import LlvmBackend.Codegen
import LlvmBackend.Proofs.Literals

/-! # Lowering with literals told from the text

The lowering of trees without a pool: a literal becomes the address of the constant that its place in
the text tells, by the literals that come before it. It is told along with each part of a tree which
literals these are.
-/

namespace LlvmBackend.Textual

open Ir Lowering
open Literal (ofExpr ofStmt ofSuite ofFunctions)

section

variable (env : Surroundings)

/-- The value of a literal. -/
def literal (before : List Literal) (literal : Literal) : Lowering (Option Value) :=
  return some (literal.value env.types before)

mutual

/-- The value of an expression behind some literals. -/
def operand? (before : List Literal) : Expr → Lowering (Option Value)
  | .bool value => literal env before (.bool value)
  | .int value => literal env before (.int value)
  | .float value => literal env before (.float value)
  | .string value => literal env before (.string value)
  | .name name => some <$> lookup name
  | .binary op left right =>
    some <$> binary env op (operand? before left >>= required)
      (operand? (before ++ ofExpr left) right >>= required)
  | .not operand => some <$> do
    let value ← operand? before operand >>= required
    negate env (← coerceToBool env value)
  | .and left right =>
    some <$> connect env .and (operand? before left >>= required)
      (operand? (before ++ ofExpr left) right >>= required)
  | .or left right =>
    some <$> connect env .or (operand? before left >>= required)
      (operand? (before ++ ofExpr left) right >>= required)
  | .ternary test onTrue onFalse =>
    some <$> choose env (condition env (operand? before test >>= required))
      (operand? (before ++ ofExpr test) onTrue >>= required)
      (operand? (before ++ ofExpr test ++ ofExpr onTrue) onFalse >>= required)
  | .index container position =>
    some <$> element env (operand? before container >>= required)
      (operand? (before ++ ofExpr container) position >>= required)
  | .call callee args => call env callee (operands before args)

def operands (before : List Literal) : List Expr → Lowering (List Value)
  | [] => return []
  | first :: rest => do
    let value ← operand? before first >>= required
    return value :: (← operands (before ++ ofExpr first) rest)

end

def value (before : List Literal) (expr : Expr) : Lowering Value :=
  operand? env before expr >>= required

def effect (before : List Literal) (expr : Expr) : Lowering Unit :=
  discard (operand? env before expr)

def leave (before : List Literal) (expr : Option Expr) : Lowering Unit := do
  match env.outcome, expr with
  | .status, expr =>
    if let some expr := expr then effect env before expr
    terminate (.ret (some success))
  | .result expected, none =>
    if expected ≠ Registry.void then refuseReturn env expected Registry.void
    terminate (.ret none)
  | .result expected, some expr =>
    if expected = Registry.void then
      effect env before expr
      terminate (.ret none)
    else
      returnValue env expected (← value env before expr)

mutual

/-- A statement behind some literals. -/
def stmt (before : List Literal) : Stmt → Lowering Unit
  | .assign target expr => assign env target (value env before expr)
  | .ifChain [] => do
    let fin ← newBlock "if-fin"
    terminate (.br fin)
    switchTo fin
  | .ifChain (first :: rest) => do
    let fin ← newBlock "if-fin"
    arms before fin 0 (first :: rest)
  | .whileLoop test body =>
    loopWhile (condition env (value env before test)) (suite (before ++ ofExpr test) body)
  | .forLoop target source body =>
    loopFor env target (value env before source) (suite (before ++ ofExpr source) body)
  | .ret expr => leave env before expr
  | .effect expr => effect env before expr

def suite (before : List Literal) : List Stmt → Lowering Unit
  | [] => return ()
  | first :: rest => do
    unless ← isTerminated do
      stmt before first
      suite (before ++ ofStmt first) rest

def arms (before : List Literal) (fin : BlockId) : Nat → List Arm → Lowering Unit
  | _, [] => return ()
  | _, .mk none body :: _ => lastArm fin (suite before body)
  | index, .mk (some test) body :: rest => do
    guardedArm fin index rest (condition env (value env before test))
      (suite (before ++ ofExpr test) body)
    arms (before ++ ofExpr test ++ ofSuite body) fin (index + 1) rest

end

end

/-! ## Functions -/

section

variable (types : Registry) (signatures : SignatureTable)

def lowerFunction (before : List Literal) (function : Tree.Function) : Codegen Function :=
  fun progress =>
  let opened : Except CodegenError (TypeId × Opening) := do
    let returns ← types.resolve function.returns
    let opening ← function.params.foldlM (Opening.addParam types function.name) {}
    return (returns, opening.addResult types returns)
  match opened with
  | .error error => .error error progress
  | .ok (returns, opening) =>
    let builder : Builder := { name := function.name, returns := .void, params := opening.params }
    build builder opening.scopes.push opening.supply (do
      suite ⟨types, signatures, .result returns⟩ before function.body
      leaveAtEnd none) progress

def lowerEntry (before : List Literal) (function : Tree.Function) : Codegen Function :=
  fun progress =>
  match types.resolve argumentsType.name with
  | .error error => .error error progress
  | .ok arguments =>
    let builder : Builder :=
      { name := entrySymbol, returns := .i32, params := [⟨.i32, "argc"⟩, ⟨argvType, "argv"⟩]
        attributes := ["nounwind", "ssp"] }
    build builder .empty (entryNames.foldl Supply.reserve {}) (do
      openEntry types arguments
      suite ⟨types, signatures, .status⟩ before function.body
      leaveAtEnd (some success)) progress

variable (entry : String)

/-- A function behind some literals. -/
def function (before : List Literal) (source : Tree.Function) : Codegen Function := do
  let lowered ←
    if source.name = entry then lowerEntry types signatures before source
    else lowerFunction types signatures before source
  Codegen.note (.lowered source.name lowered.name lowered.layout.length lowered.instrCount)
  return lowered

def functions (before : List Literal) : List Tree.Function → Codegen (List Function)
  | [] => return []
  | first :: rest => do
    let lowered ← function types signatures entry before first
    return lowered :: (← functions (before ++ ofSuite first.body) rest)

end

/-- The code of a module with the constants of its literals. -/
def generate (source : Tree.Module) (types : Registry) (options : CodegenOptions) :
    Codegen Module := do
  let triple ← Codegen.ofExcept (Platform.triple options.platform)
  let signatures ← Codegen.ofExcept (SignatureTable.collect source types options.entry)
  Codegen.note (.target triple signatures.size)
  let lowered ← functions types signatures options.entry [] source.functions
  let preamble ← match options.preamble with
    | some text => pure (.verbatim text)
    | none => Codegen.ofExcept (Preamble.derive types signatures (lowered.map (·.name)))
  let globals := Literal.constants types [] (ofFunctions source.functions)
  return { triple, preamble, globals, functions := lowered }

end LlvmBackend.Textual
