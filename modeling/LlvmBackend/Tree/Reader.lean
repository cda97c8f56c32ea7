import LlvmBackend.Json.Reader
import LlvmBackend.Tree

/-!
# Reading module trees

A module tree is read from a JSON text. A statement or expression is a record whose `kind` names its
form, or a list that starts with the form; it is taken in as a whole before its fields are looked
at. Everything around statements is read in the order of the text.
-/

namespace LlvmBackend.Tree

/-! ## Forms -/

/-- The forms of expressions by the names that `kind` gives them. -/
inductive ExprForm where
  | bool | int | float | string | name | binary | not | and | or | ternary | index | call
  deriving DecidableEq, Repr

/-- What a field of an expression holds. -/
inductive ExprField where
  | bool | int | float | text | operator | expr | exprs
  deriving DecidableEq, Repr

namespace ExprForm

def named : List (String × ExprForm) :=
  [("bool", .bool), ("int", .int), ("float", .float), ("string", .string), ("name", .name),
   ("binary", .binary), ("not", .not), ("and", .and), ("or", .or), ("ternary", .ternary),
   ("index", .index), ("call", .call)]

/-- The name of a form in messages about its length. -/
def title : ExprForm → String
  | .bool => "struct variant Expression::Bool"
  | .int => "struct variant Expression::Int"
  | .float => "struct variant Expression::Float"
  | .string => "struct variant Expression::String"
  | .name => "struct variant Expression::Name"
  | .binary => "struct variant Expression::Binary"
  | .not => "struct variant Expression::Not"
  | .and => "struct variant Expression::And"
  | .or => "struct variant Expression::Or"
  | .ternary => "struct variant Expression::Ternary"
  | .index => "struct variant Expression::Index"
  | .call => "struct variant Expression::Call"

/-- The fields of a form in their order. -/
def fields : ExprForm → List (String × ExprField)
  | .bool => [("value", .bool)]
  | .int => [("value", .int)]
  | .float => [("value", .float)]
  | .string => [("value", .text)]
  | .name => [("name", .text)]
  | .binary => [("op", .operator), ("left", .expr), ("right", .expr)]
  | .not => [("operand", .expr)]
  | .and | .or => [("left", .expr), ("right", .expr)]
  | .ternary => [("condition", .expr), ("then", .expr), ("otherwise", .expr)]
  | .index => [("container", .expr), ("index", .expr)]
  | .call => [("callee", .text), ("args", .exprs)]

end ExprForm

/-- The forms of statements by the names that `kind` gives them. -/
inductive StmtForm where
  | assign | ifChain | whileLoop | forLoop | ret | effect
  deriving DecidableEq, Repr

/-- What a field of a statement or of an arm holds. -/
inductive StmtField where
  | text | expr | optionalExpr | stmts | arms
  deriving DecidableEq, Repr

namespace StmtForm

def named : List (String × StmtForm) :=
  [("assign", .assign), ("if", .ifChain), ("while", .whileLoop), ("for", .forLoop),
   ("return", .ret), ("expr", .effect)]

/-- The name of a form in messages about its length. -/
def title : StmtForm → String
  | .assign => "struct variant Statement::Assign"
  | .ifChain => "struct variant Statement::If"
  | .whileLoop => "struct variant Statement::While"
  | .forLoop => "struct variant Statement::For"
  | .ret => "struct variant Statement::Return"
  | .effect => "struct variant Statement::Expr"

/-- The fields of a form in their order. -/
def fields : StmtForm → List (String × StmtField)
  | .assign => [("target", .text), ("value", .expr)]
  | .ifChain => [("branches", .arms)]
  | .whileLoop => [("condition", .expr), ("body", .stmts)]
  | .forLoop => [("var", .text), ("source", .expr), ("body", .stmts)]
  | .ret => [("value", .optionalExpr)]
  | .effect => [("expr", .expr)]

end StmtForm

/-- The fields of an arm in their order. -/
def armFields : List (String × StmtField) := [("condition", .optionalExpr), ("body", .stmts)]

/-! ## The name of the form -/

/-- Reads the form of a value that was taken in before. A natural number counts the forms. -/
def readForm {α : Type} (named : List (String × α)) : Datum → Reading α
  | .string name => Datum.chooseVariant named name
  | .integer n =>
    if n < 0 then Datum.refuse "variant identifier" (.integer n)
    else
      match named[n.toNat]? with
      | some (_, form) => .ok form
      | none =>
        .error (.here (.invalidValue (.integer n) s!"variant index 0 <= i < {named.length}"))
  | datum => datum.refuse "variant identifier"

/-- Reads the form of a statement while its text is taken in; only its name will do. -/
def readFormName {α : Type} (named : List (String × α)) : Datum → Reading α
  | .string name => Datum.chooseVariant named name
  | datum => datum.refuse "variant identifier"

/-- Reads the form that the `kind` of a record names. -/
def readKind {α : Type} (named : List (String × α)) (members : List (String × Datum)) :
    Reading α :=
  match members.filter (·.1 = "kind") with
  | [] => .error (.here (.missingField "kind"))
  | [(_, kind)] => readForm named kind
  | (_, kind) :: _ => do
    let _ ← readForm named kind
    throw (.here (.duplicateField "kind"))

/-- Takes in the record of a statement in the order of its text. -/
def takeInMembers {α : Type} (named : List (String × α)) :
    (kindSeen : Bool) → List (String × Datum) → Reading Unit
  | _, [] => .ok ()
  | kindSeen, (name, datum) :: rest =>
    if name = "kind" then do
      if kindSeen then throw (.here (.duplicateField "kind"))
      let _ ← readFormName named datum
      takeInMembers named true rest
    else do
      datum.buffer
      takeInMembers named kindSeen rest

/-- Takes in a statement in the order of its text, before its fields are looked at. -/
def takeIn {α : Type} (named : List (String × α)) : Datum → Reading Unit
  | .record members => takeInMembers named false members
  | .list (kind :: rest) => do
    let _ ← readFormName named kind
    (Datum.list rest).buffer
  | .broken reading _ => .error (.broken reading)
  | _ => .ok ()

/-! ## Fields -/

/-- The error for a field that is absent: a record lacks it, a list is too short for it. -/
abbrev Absence := String → ReadError

/-- The error for a field that a record lacks. -/
def lacking : Absence := fun name => .here (.missingField name)

/-- The error for a list that ends before a field. -/
def tooShort {α : Type} (title : String) (fields : List (String × α)) : Absence := fun name =>
  .here (.invalidLength (fields.map Prod.fst |>.idxOf name) (Field.counted title fields.length))

/-- A list that goes on after the last field. -/
def checkLength (length fields : Nat) : Reading Unit :=
  match if fields < length then Surplus.counted length fields else none with
  | some error => .error error
  | none => .ok ()

/-- Reads an operator: its name, or a record with the name as its only member. -/
def readOperator : Datum → Reading BinaryOperator
  | .string name => Datum.chooseVariant BinaryOperator.named name
  | .record [(name, value)] => do
    let op ← Datum.chooseVariant BinaryOperator.named name
    match value with
    | .null | .record [] => return op
    | value => value.refuse "unit"
  | .record members => .error (.here (.invalidValue (.record members) "map with a single key"))
  | datum => datum.refuse "string or map"

/-- The value of a field of an expression. -/
inductive ExprPart where
  | bool (value : Bool)
  | int (value : Int64)
  | float (value : Binary64)
  | text (value : String)
  | operator (value : BinaryOperator)
  | expr (value : Expr)
  | exprs (values : List Expr)

/-- The fields of an expression that were read. -/
abbrev ExprParts := List (String × ExprPart)

namespace ExprParts

variable (parts : ExprParts) (absence : Absence) (name : String)

def bool : Reading Bool :=
  match parts.lookup name with
  | some (.bool value) => .ok value
  | _ => .error (absence name)

def int : Reading Int64 :=
  match parts.lookup name with
  | some (.int value) => .ok value
  | _ => .error (absence name)

def float : Reading Binary64 :=
  match parts.lookup name with
  | some (.float value) => .ok value
  | _ => .error (absence name)

def text : Reading String :=
  match parts.lookup name with
  | some (.text value) => .ok value
  | _ => .error (absence name)

def operator : Reading BinaryOperator :=
  match parts.lookup name with
  | some (.operator value) => .ok value
  | _ => .error (absence name)

def expr : Reading Expr :=
  match parts.lookup name with
  | some (.expr value) => .ok value
  | _ => .error (absence name)

/-- A list that may be absent. -/
def exprs : List Expr :=
  match parts.lookup name with
  | some (.exprs values) => values
  | _ => []

end ExprParts

/-- Puts an expression together from its fields, in their order. -/
def ExprForm.build (parts : ExprParts) (absence : Absence) : ExprForm → Reading Expr
  | .bool => return .bool (← parts.bool absence "value")
  | .int => return .int (← parts.int absence "value")
  | .float => return .float (← parts.float absence "value")
  | .string => return .string (← parts.text absence "value")
  | .name => return .name (← parts.text absence "name")
  | .binary => do
    let op ← parts.operator absence "op"
    let left ← parts.expr absence "left"
    return .binary op left (← parts.expr absence "right")
  | .not => return .not (← parts.expr absence "operand")
  | .and => do
    let left ← parts.expr absence "left"
    return .and left (← parts.expr absence "right")
  | .or => do
    let left ← parts.expr absence "left"
    return .or left (← parts.expr absence "right")
  | .ternary => do
    let condition ← parts.expr absence "condition"
    let onTrue ← parts.expr absence "then"
    return .ternary condition onTrue (← parts.expr absence "otherwise")
  | .index => do
    let container ← parts.expr absence "container"
    return .index container (← parts.expr absence "index")
  | .call => return .call (← parts.text absence "callee") (parts.exprs "args")

/-- Reads a field that holds no expression. -/
def ExprField.readScalar : ExprField → Datum → Reading ExprPart
  | .bool, datum => .bool <$> datum.asBool
  | .int, datum => .int <$> datum.asInteger
  | .float, datum => .float <$> datum.asFloat
  | .text, datum => .text <$> datum.asString
  | .operator, datum => .operator <$> readOperator datum
  | .expr, datum => datum.refuse "internally tagged enum Expression"
  | .exprs, datum => datum.refuse "a sequence"

mutual

/-- Reads an expression that was taken in before. -/
def readExpr : Datum → Reading Expr
  | .record members => do
    let form ← readKind ExprForm.named members
    let parts ← readExprMembers form.fields members []
    form.build parts lacking
  | .list [] => .error (.here (.missingField "kind"))
  | .list (kind :: items) => do
    let form ← readForm ExprForm.named kind
    let parts ← readExprItems form.fields items
    let expr ← form.build parts (tooShort form.title form.fields)
    checkLength items.length form.fields.length
    return expr
  | datum => datum.refuse "internally tagged enum Expression"

/-- Reads the members of an expression's record in the order of the text. -/
def readExprMembers (fields : List (String × ExprField)) :
    List (String × Datum) → ExprParts → Reading ExprParts
  | [], parts => .ok parts
  | (name, datum) :: rest, parts =>
    match fields.lookup name with
    | none => readExprMembers fields rest parts
    | some field => do
      if (parts.lookup name).isSome then throw (.here (.duplicateField name))
      let part ← match field, datum with
        | .expr, datum => ExprPart.expr <$> readExpr datum
        | .exprs, .list items => ExprPart.exprs <$> readExprs items
        | field, datum => field.readScalar datum
      readExprMembers fields rest ((name, part) :: parts)

/-- Reads the items of an expression's list into its fields. -/
def readExprItems : List (String × ExprField) → List Datum → Reading ExprParts
  | (name, field) :: fields, datum :: rest => do
    let part ← match field, datum with
      | .expr, datum => ExprPart.expr <$> readExpr datum
      | .exprs, .list items => ExprPart.exprs <$> readExprs items
      | field, datum => field.readScalar datum
    return (name, part) :: (← readExprItems fields rest)
  | _, _ => .ok []

def readExprs : List Datum → Reading (List Expr)
  | [] => .ok []
  | datum :: rest => do
    let expr ← readExpr datum
    return expr :: (← readExprs rest)

end

/-- The value of a field of a statement or of an arm. -/
inductive StmtPart where
  | text (value : String)
  | expr (value : Expr)
  | optionalExpr (value : Option Expr)
  | stmts (values : List Stmt)
  | arms (values : List Arm)

/-- The fields of a statement that were read. -/
abbrev StmtParts := List (String × StmtPart)

namespace StmtParts

variable (parts : StmtParts) (absence : Absence) (name : String)

def text : Reading String :=
  match parts.lookup name with
  | some (.text value) => .ok value
  | _ => .error (absence name)

def expr : Reading Expr :=
  match parts.lookup name with
  | some (.expr value) => .ok value
  | _ => .error (absence name)

/-- An expression that may be absent. -/
def optionalExpr : Option Expr :=
  match parts.lookup name with
  | some (.optionalExpr value) => value
  | _ => none

def stmts : Reading (List Stmt) :=
  match parts.lookup name with
  | some (.stmts values) => .ok values
  | _ => .error (absence name)

def arms : Reading (List Arm) :=
  match parts.lookup name with
  | some (.arms values) => .ok values
  | _ => .error (absence name)

end StmtParts

/-- Puts a statement together from its fields, in their order. -/
def StmtForm.build (parts : StmtParts) (absence : Absence) : StmtForm → Reading Stmt
  | .assign => do
    let target ← parts.text absence "target"
    return .assign target (← parts.expr absence "value")
  | .ifChain => return .ifChain (← parts.arms absence "branches")
  | .whileLoop => do
    let condition ← parts.expr absence "condition"
    return .whileLoop condition (← parts.stmts absence "body")
  | .forLoop => do
    let target ← parts.text absence "var"
    let source ← parts.expr absence "source"
    return .forLoop target source (← parts.stmts absence "body")
  | .ret => return .ret (parts.optionalExpr "value")
  | .effect => return .effect (← parts.expr absence "expr")

/-- Puts an arm together from its fields. -/
def buildArm (parts : StmtParts) (absence : Absence) : Reading Arm :=
  return .mk (parts.optionalExpr "condition") (← parts.stmts absence "body")

/-- Reads a field that holds no statement. -/
def StmtField.readPlain : StmtField → Datum → Reading StmtPart
  | .text, datum => .text <$> datum.asString
  | .expr, datum => .expr <$> readExpr datum
  | .optionalExpr, datum => .optionalExpr <$> datum.asOptional readExpr
  | .stmts, datum => datum.refuse "a sequence"
  | .arms, datum => datum.refuse "a sequence"

mutual

/-- Reads a statement that was taken in before. -/
def readStmt : Datum → Reading Stmt
  | .record members => do
    let form ← readKind StmtForm.named members
    let parts ← readStmtMembers form.fields members []
    form.build parts lacking
  | .list [] => .error (.here (.missingField "kind"))
  | .list (kind :: items) => do
    let form ← readForm StmtForm.named kind
    let parts ← readStmtItems form.fields items
    let stmt ← form.build parts (tooShort form.title form.fields)
    checkLength items.length form.fields.length
    return stmt
  | datum => datum.refuse "internally tagged enum Statement"

/-- Reads the members of a statement's or arm's record in the order of the text. -/
def readStmtMembers (fields : List (String × StmtField)) :
    List (String × Datum) → StmtParts → Reading StmtParts
  | [], parts => .ok parts
  | (name, datum) :: rest, parts =>
    match fields.lookup name with
    | none => readStmtMembers fields rest parts
    | some field => do
      if (parts.lookup name).isSome then throw (.here (.duplicateField name))
      let part ← match field, datum with
        | .stmts, .list items => StmtPart.stmts <$> readStmts items
        | .arms, .list items => StmtPart.arms <$> readArms items
        | field, datum => field.readPlain datum
      readStmtMembers fields rest ((name, part) :: parts)

/-- Reads the items of a statement's or arm's list into its fields. -/
def readStmtItems : List (String × StmtField) → List Datum → Reading StmtParts
  | (name, field) :: fields, datum :: rest => do
    let part ← match field, datum with
      | .stmts, .list items => StmtPart.stmts <$> readStmts items
      | .arms, .list items => StmtPart.arms <$> readArms items
      | field, datum => field.readPlain datum
    return (name, part) :: (← readStmtItems fields rest)
  | _, _ => .ok []

def readStmts : List Datum → Reading (List Stmt)
  | [] => .ok []
  | datum :: rest => do
    let stmt ← readStmt datum
    return stmt :: (← readStmts rest)

def readArm : Datum → Reading Arm
  | .record members => do
    let parts ← readStmtMembers armFields members []
    buildArm parts lacking
  | .list items => do
    let parts ← readStmtItems armFields items
    let arm ← buildArm parts (tooShort "struct GuardedBlock" armFields)
    checkLength items.length armFields.length
    return arm
  | datum => datum.refuse "struct GuardedBlock"

def readArms : List Datum → Reading (List Arm)
  | [] => .ok []
  | datum :: rest => do
    let arm ← readArm datum
    return arm :: (← readArms rest)

end

/-! ## Functions and modules -/

/-- Reads a statement of a function's body: first its whole text, then its fields. -/
def readBodyStmt (datum : Datum) : Reading Stmt := do
  takeIn StmtForm.named datum
  readStmt datum

/-- The fields of a parameter. -/
def paramFields : List (Field Param) :=
  [⟨"name", true, fun datum param => return { param with name := ← datum.asString }⟩,
   ⟨"type", true, fun datum param => return { param with type := ← datum.asString }⟩]

def readParam : Datum → Reading Param :=
  Field.readStructure "struct Param" Surplus.malformed paramFields ⟨"", ""⟩

/-- The fields of a function; without a return type it returns nothing. -/
def functionFields : List (Field Function) :=
  [⟨"name", true, fun datum function => return { function with name := ← datum.asString }⟩,
   ⟨"params", false, fun datum function =>
      return { function with params := ← datum.asList readParam }⟩,
   ⟨"returns", false, fun datum function =>
      return { function with returns := ← datum.asString }⟩,
   ⟨"body", true, fun datum function =>
      return { function with body := ← datum.asList readBodyStmt }⟩]

def readFunction : Datum → Reading Function :=
  Field.readStructure "struct Function" Surplus.malformed functionFields
    { name := "", body := [] }

/-- The fields of a module. -/
def moduleFields : List (Field Module) :=
  [⟨"functions", true, fun datum tree =>
      return { tree with functions := ← datum.asList readFunction }⟩]

def readModule : Datum → Reading Module :=
  Field.readStructure "struct Module" Surplus.malformed moduleFields ⟨[]⟩

/-- Reads a module tree from its JSON text. -/
def Module.ofJson? (text : String) (json : Json.Library := Json.standard) : Reading Module :=
  json.read readModule text

end LlvmBackend.Tree
