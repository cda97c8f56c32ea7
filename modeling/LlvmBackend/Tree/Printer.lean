import LlvmBackend.Json.Reader
import LlvmBackend.Tree

/-!
# Writing module trees

A module tree as a datum, with the `kind` of a statement or expression first and its fields in their
order, and as JSON text.
-/

namespace LlvmBackend.Tree

mutual

def exprDatum : Expr → Datum
  | .bool value => .record [("kind", .string "bool"), ("value", .bool value)]
  | .int value => .record [("kind", .string "int"), ("value", .integer value.toInt)]
  | .float value => .record [("kind", .string "float"), ("value", .float value)]
  | .string value => .record [("kind", .string "string"), ("value", .string value)]
  | .name name => .record [("kind", .string "name"), ("name", .string name)]
  | .binary op left right =>
    .record [("kind", .string "binary"), ("op", .string op.name), ("left", exprDatum left),
      ("right", exprDatum right)]
  | .not operand => .record [("kind", .string "not"), ("operand", exprDatum operand)]
  | .and left right =>
    .record [("kind", .string "and"), ("left", exprDatum left), ("right", exprDatum right)]
  | .or left right =>
    .record [("kind", .string "or"), ("left", exprDatum left), ("right", exprDatum right)]
  | .ternary condition onTrue onFalse =>
    .record [("kind", .string "ternary"), ("condition", exprDatum condition),
      ("then", exprDatum onTrue), ("otherwise", exprDatum onFalse)]
  | .index container position =>
    .record [("kind", .string "index"), ("container", exprDatum container),
      ("index", exprDatum position)]
  | .call callee args =>
    .record [("kind", .string "call"), ("callee", .string callee), ("args", .list (exprData args))]

def exprData : List Expr → List Datum
  | [] => []
  | expr :: rest => exprDatum expr :: exprData rest

end

/-- An expression that may be absent. -/
def optionalExprDatum : Option Expr → Datum
  | none => .null
  | some expr => exprDatum expr

mutual

def stmtDatum : Stmt → Datum
  | .assign target value =>
    .record [("kind", .string "assign"), ("target", .string target), ("value", exprDatum value)]
  | .ifChain arms => .record [("kind", .string "if"), ("branches", .list (armData arms))]
  | .whileLoop condition body =>
    .record [("kind", .string "while"), ("condition", exprDatum condition),
      ("body", .list (stmtData body))]
  | .forLoop target source body =>
    .record [("kind", .string "for"), ("var", .string target), ("source", exprDatum source),
      ("body", .list (stmtData body))]
  | .ret value => .record [("kind", .string "return"), ("value", optionalExprDatum value)]
  | .effect value => .record [("kind", .string "expr"), ("expr", exprDatum value)]

def stmtData : List Stmt → List Datum
  | [] => []
  | stmt :: rest => stmtDatum stmt :: stmtData rest

def armDatum : Arm → Datum
  | .mk condition body =>
    .record [("condition", optionalExprDatum condition), ("body", .list (stmtData body))]

def armData : List Arm → List Datum
  | [] => []
  | arm :: rest => armDatum arm :: armData rest

end

def paramDatum (param : Param) : Datum :=
  .record [("name", .string param.name), ("type", .string param.type)]

def functionDatum (function : Function) : Datum :=
  .record [("name", .string function.name), ("params", .list (function.params.map paramDatum)),
    ("returns", .string function.returns), ("body", .list (stmtData function.body))]

def moduleDatum (tree : Module) : Datum :=
  .record [("functions", .list (tree.functions.map functionDatum))]

/-- The JSON text of a module tree. -/
def Module.toJson (tree : Module) (json : Json.Library := Json.standard) : String :=
  json.print (moduleDatum tree)

end LlvmBackend.Tree
