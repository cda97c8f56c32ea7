import LlvmBackend.Pool
import LlvmBackend.Proofs.Reference

/-! # Literals of a text

The literals of a tree in the order in which they are lowered, and the constants that they become.
What a literal becomes is told from the literals before it alone.
-/

namespace LlvmBackend

open Ir

/-- A literal of the source. -/
inductive Literal where
  | bool (value : Bool)
  | int (value : Int64)
  | float (value : Binary64)
  | string (value : String)
  deriving DecidableEq, Repr

namespace Literal

/-! ## Constants -/

/-- Truth values have no number. -/
def isNumbered : Literal → Bool
  | .bool _ => false
  | .int _ | .float _ | .string _ => true

/-- The number that comes next behind some literals. -/
def number (before : List Literal) : Nat := before.countP isNumbered

def type : Literal → TypeId
  | .bool _ => Registry.bool
  | .int _ => Registry.int
  | .float _ => Registry.float
  | .string _ => Registry.string

section

variable (types : Registry) (before : List Literal)

/-- The constant that a literal stands for. -/
def global : Literal → Global
  | .bool value => ⟨if value then "bool1" else "bool0", ⟨types.ir Registry.bool⟩, .bool value⟩
  | .int value => ⟨s!"int{number before}", ⟨types.ir Registry.int⟩, .int value⟩
  | .float value => ⟨s!"flt{number before}", ⟨types.ir Registry.float⟩, .float value⟩
  | .string value =>
    ⟨s!"str{number before}", ⟨types.ir Registry.string⟩,
      .header value.toUTF8.size s!"str{number before}_data"⟩

/-- The constant of the bytes of a text. -/
def bytes (value : String) : Global :=
  ⟨s!"str{number before}_data", ⟨s!"[{value.toUTF8.size} x i8]"⟩, .bytes value.toUTF8.toList⟩

/-- The constants that are there from a literal on: both truth values, if it is the first of them,
    or its own ones. -/
def created : Literal → List Global
  | .bool _ =>
    if before.all isNumbered then
      [(Literal.bool false).global types before, (Literal.bool true).global types before]
    else []
  | .string value => [bytes before value, (Literal.string value).global types before]
  | literal => [literal.global types before]

/-- The value of a literal is the address of its constant. -/
def value (literal : Literal) : Value :=
  .constant literal.type (.symbol (literal.global types before).symbol)

/-- The constants that literals add behind others, from one to the next. -/
def constants (types : Registry) (before : List Literal) : List Literal → List Global
  | [] => []
  | literal :: rest => literal.created types before ++ constants types (before ++ [literal]) rest

end

/-! ## Trees -/

mutual

/-- The literals of an expression from left to right. -/
def ofExpr : Expr → List Literal
  | .bool value => [.bool value]
  | .int value => [.int value]
  | .float value => [.float value]
  | .string value => [.string value]
  | .name _ => []
  | .binary _ left right => ofExpr left ++ ofExpr right
  | .not operand => ofExpr operand
  | .and left right => ofExpr left ++ ofExpr right
  | .or left right => ofExpr left ++ ofExpr right
  | .ternary test onTrue onFalse => ofExpr test ++ (ofExpr onTrue ++ ofExpr onFalse)
  | .index container position => ofExpr container ++ ofExpr position
  | .call _ args => ofExprs args

def ofExprs : List Expr → List Literal
  | [] => []
  | first :: rest => ofExpr first ++ ofExprs rest

end

mutual

/-- The literals of a statement, a condition or a source before the body. -/
def ofStmt : Stmt → List Literal
  | .assign _ expr => ofExpr expr
  | .ifChain chain => ofArms chain
  | .whileLoop test body => ofExpr test ++ ofSuite body
  | .forLoop _ source body => ofExpr source ++ ofSuite body
  | .ret none => []
  | .ret (some expr) => ofExpr expr
  | .effect expr => ofExpr expr

/-- The literals of statements up to the first that returns. -/
def ofSuite : List Stmt → List Literal
  | [] => []
  | first :: rest => ofStmt first ++ if Reference.isReturn first then [] else ofSuite rest

/-- The literals of the arms of a chain of conditions up to the first without condition. -/
def ofArms : List Arm → List Literal
  | [] => []
  | .mk none body :: _ => ofSuite body
  | .mk (some test) body :: rest => ofExpr test ++ (ofSuite body ++ ofArms rest)

end

/-- The literals of functions in their order. -/
def ofFunctions (functions : List Tree.Function) : List Literal :=
  functions.flatMap fun function => ofSuite function.body

/-! ## Pools -/

variable {types : Registry} {before : List Literal}

/-- The pool behind some literals. -/
def pool (types : Registry) (before : List Literal) : Pool where
  globals := constants types [] before
  count := number before
  hasBools := !before.all isNumbered

theorem constants_append (first second : List Literal) :
    constants types before (first ++ second) =
      constants types before first ++ constants types (before ++ first) second := by
  induction first generalizing before with
  | nil => simp [constants]
  | cons literal rest ih => simp [constants, ih]

theorem pool_append (literal : Literal) :
    pool types (before ++ [literal]) =
      { globals := (pool types before).globals ++ literal.created types before
        count := (pool types before).count + if literal.isNumbered then 1 else 0
        hasBools := (pool types before).hasBools || !literal.isNumbered } := by
  simp [pool, constants_append, constants, number, List.countP_append, List.countP_cons,
    Bool.not_and]

/-- Adds a literal to a pool. -/
def add (types : Registry) (pool : Pool) : Literal → Value × Pool
  | .bool value => pool.bool types value
  | .int value => pool.int types value
  | .float value => pool.float types value
  | .string value => pool.string types value

/-- A literal that is added to the pool behind some literals has its value behind these, and leaves
    the pool behind itself. -/
theorem add_pool (literal : Literal) :
    literal.add types (pool types before) =
      (literal.value types before, pool types (before ++ [literal])) := by
  rw [pool_append]
  cases literal with
  | int value =>
      simp only [add, Pool.int, Pool.add, isNumbered, if_true, Bool.not_true, Bool.or_false]
      rfl
  | float value =>
      simp only [add, Pool.float, Pool.add, isNumbered, if_true, Bool.not_true, Bool.or_false]
      rfl
  | string value =>
      simp only [add, Pool.string, Pool.add, isNumbered, if_true, Bool.not_true, Bool.or_false]
      rfl
  | bool value =>
      have stands (value : Bool) :
          (Literal.bool value).global types before = Pool.boolGlobal types value := by
        cases value <;> rfl
      simp only [add, Pool.bool, Literal.value, created, stands]
      cases all : before.all isNumbered <;> simp [pool, all, isNumbered, Pool.addBools] <;> rfl

end Literal

end LlvmBackend
