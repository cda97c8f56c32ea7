import LlvmBackend.Binary64

/-!
# Module trees

The typed tree of a source module: functions of statements of expressions. Every name in it is
meant to be declared, and every operator to have a method on its left operand's type; the lowering
reports where that does not hold.
-/

namespace LlvmBackend

/-- An operator between two operands. -/
inductive BinaryOperator where
  | add
  | sub
  | mul
  | div
  | eq
  | notEq
  | lt
  deriving DecidableEq, Repr

namespace BinaryOperator

/-- The method that an operator calls on its left operand's type; `!=` calls that of `==`. -/
def method : BinaryOperator → String
  | .add => "__add__"
  | .sub => "__sub__"
  | .mul => "__mul__"
  | .div => "__div__"
  | .eq | .notEq => "__eq__"
  | .lt => "__lt__"

/-- The sign of an operator. -/
def sign : BinaryOperator → String
  | .add => "+"
  | .sub => "-"
  | .mul => "*"
  | .div => "/"
  | .eq => "=="
  | .notEq => "!="
  | .lt => "<"

/-- The operators by the names that trees give them. -/
def named : List (String × BinaryOperator) :=
  [("add", .add), ("sub", .sub), ("mul", .mul), ("div", .div), ("eq", .eq), ("not_eq", .notEq),
   ("lt", .lt)]

/-- The name that trees give an operator. -/
def name : BinaryOperator → String
  | .add => "add"
  | .sub => "sub"
  | .mul => "mul"
  | .div => "div"
  | .eq => "eq"
  | .notEq => "not_eq"
  | .lt => "lt"

end BinaryOperator

/-- An expression. -/
inductive Expr where
  | bool (value : Bool)
  | int (value : Int64)
  | float (value : Binary64)
  | string (value : String)
  | name (name : String)
  | binary (op : BinaryOperator) (left right : Expr)
  | not (operand : Expr)
  | and (left right : Expr)
  | or (left right : Expr)
  | ternary (condition onTrue onFalse : Expr)
  | index (container position : Expr)
  | call (callee : String) (args : List Expr)

mutual

/-- A statement. -/
inductive Stmt where
  | assign (target : String) (value : Expr)
  /-- Arms that are tried in order; an arm without condition is an `else`. -/
  | ifChain (arms : List Arm)
  | whileLoop (condition : Expr) (body : List Stmt)
  | forLoop (target : String) (source : Expr) (body : List Stmt)
  | ret (value : Option Expr)
  /-- An expression for what it does. -/
  | effect (value : Expr)

/-- One arm of a chain of conditions. -/
inductive Arm where
  | mk (condition : Option Expr) (body : List Stmt)

end

namespace Arm

def condition : Arm → Option Expr
  | .mk condition _ => condition

def body : Arm → List Stmt
  | .mk _ body => body

end Arm

namespace Tree

/-- A parameter of a function and the name of its type. -/
structure Param where
  name : String
  type : String
  deriving DecidableEq, Repr

/-- A function of a module; types go by their names. -/
structure Function where
  name : String
  params : List Param := []
  returns : String := "void"
  body : List Stmt

/-- A module. -/
structure Module where
  functions : List Function

end Tree

/-! ## Equality of trees

Floating-point literals are compared as numbers: the two zeros are equal, and so are all literals
that are not a number. -/

mutual

def Expr.same : Expr → Expr → Bool
  | .bool a, .bool b => a == b
  | .int a, .int b => a == b
  | .float a, .float b => a.same b
  | .string a, .string b => a == b
  | .name a, .name b => a == b
  | .binary op l r, .binary op' l' r' => op == op' && l.same l' && r.same r'
  | .not e, .not e' => e.same e'
  | .and l r, .and l' r' => l.same l' && r.same r'
  | .or l r, .or l' r' => l.same l' && r.same r'
  | .ternary c t f, .ternary c' t' f' => c.same c' && t.same t' && f.same f'
  | .index c p, .index c' p' => c.same c' && p.same p'
  | .call callee args, .call callee' args' => callee == callee' && sameExprs args args'
  | _, _ => false

def sameExprs : List Expr → List Expr → Bool
  | [], [] => true
  | e :: es, e' :: es' => e.same e' && sameExprs es es'
  | _, _ => false

end

/-- Equality of values that may be absent. -/
def sameOptionExpr : Option Expr → Option Expr → Bool
  | none, none => true
  | some e, some e' => e.same e'
  | _, _ => false

mutual

def Stmt.same : Stmt → Stmt → Bool
  | .assign t v, .assign t' v' => t == t' && v.same v'
  | .ifChain arms, .ifChain arms' => sameArms arms arms'
  | .whileLoop c body, .whileLoop c' body' => c.same c' && sameStmts body body'
  | .forLoop v s body, .forLoop v' s' body' => v == v' && s.same s' && sameStmts body body'
  | .ret v, .ret v' => sameOptionExpr v v'
  | .effect e, .effect e' => e.same e'
  | _, _ => false

def sameStmts : List Stmt → List Stmt → Bool
  | [], [] => true
  | s :: ss, s' :: ss' => s.same s' && sameStmts ss ss'
  | _, _ => false

def sameArms : List Arm → List Arm → Bool
  | [], [] => true
  | .mk c body :: arms, .mk c' body' :: arms' =>
    sameOptionExpr c c' && sameStmts body body' && sameArms arms arms'
  | _, _ => false

end

namespace Tree

def Function.same (f g : Function) : Bool :=
  f.name == g.name && f.params == g.params && f.returns == g.returns && sameStmts f.body g.body

def Module.same (m n : Module) : Bool :=
  m.functions.length == n.functions.length &&
    (m.functions.zip n.functions).all fun (f, g) => f.same g

end Tree

end LlvmBackend
