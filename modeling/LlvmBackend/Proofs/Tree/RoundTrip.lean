import LlvmBackend.Proofs.Json.Documents
import LlvmBackend.Tree.Printer
import LlvmBackend.Tree.Reader
import Mathlib.Data.List.Forall2

/-! # Module trees survive their JSON text

A module whose floating-point literals are finite comes back from its text, whatever library prints
and reads it, as long as the library gives numbers, strings and containers back. Main statement:
`Module.ofJson?_toJson`.
-/

namespace LlvmBackend

/-! ## Literals -/

mutual

/-- The floating-point literals of an expression. -/
def Expr.floats : Expr → List Binary64
  | .bool _ | .int _ | .string _ | .name _ => []
  | .float value => [value]
  | .binary _ left right | .and left right | .or left right => left.floats ++ right.floats
  | .not operand => operand.floats
  | .ternary condition onTrue onFalse => condition.floats ++ onTrue.floats ++ onFalse.floats
  | .index container position => container.floats ++ position.floats
  | .call _ args => floatsOfExprs args

def floatsOfExprs : List Expr → List Binary64
  | [] => []
  | expr :: rest => expr.floats ++ floatsOfExprs rest

end

/-- The floating-point literals of an expression that may be absent. -/
def floatsOfOption (expr : Option Expr) : List Binary64 := expr.elim [] Expr.floats

mutual

/-- The floating-point literals of a statement. -/
def Stmt.floats : Stmt → List Binary64
  | .assign _ value | .effect value => value.floats
  | .ifChain arms => floatsOfArms arms
  | .whileLoop condition body => condition.floats ++ floatsOfStmts body
  | .forLoop _ source body => source.floats ++ floatsOfStmts body
  | .ret value => floatsOfOption value

def floatsOfStmts : List Stmt → List Binary64
  | [] => []
  | stmt :: rest => stmt.floats ++ floatsOfStmts rest

def Arm.floats : Arm → List Binary64
  | .mk condition body => floatsOfOption condition ++ floatsOfStmts body

def floatsOfArms : List Arm → List Binary64
  | [] => []
  | arm :: rest => arm.floats ++ floatsOfArms rest

end

namespace Tree

/-- The floating-point literals of a module. -/
def Module.floats (module : Module) : List Binary64 :=
  module.functions.flatMap fun function => floatsOfStmts function.body

open Json (Library)

variable {json : Library}

/-- All numbers of a list are finite and come back from their JSON texts. -/
def AllReread (json : Library) (xs : List Binary64) : Prop :=
  ∀ x ∈ xs, x.isFinite = true ∧ json.Rereads x

theorem allReread_append {xs ys : List Binary64} :
    AllReread json (xs ++ ys) ↔ AllReread json xs ∧ AllReread json ys :=
  List.forall_mem_append

mutual

theorem legible_exprDatum : ∀ (expr : Expr), AllReread json expr.floats →
    json.Legible (exprDatum expr)
  | .bool _, _ | .string _, _ | .name _, _ => by
    simp [exprDatum, Library.Legible, Library.LegibleMembers]
  | .int value, _ => by
    simp [exprDatum, Library.Legible, Library.LegibleMembers]
  | .float value, reread => by
    simpa [exprDatum, Library.Legible, Library.LegibleMembers, AllReread, Expr.floats] using reread
  | .binary _ left right, reread | .and left right, reread | .or left right, reread
  | .index left right, reread => by
    obtain ⟨first, second⟩ := allReread_append.mp reread
    simp [exprDatum, Library.Legible, Library.LegibleMembers, legible_exprDatum left first,
      legible_exprDatum right second]
  | .not operand, reread => by
    simp [exprDatum, Library.Legible, Library.LegibleMembers, legible_exprDatum operand reread]
  | .ternary condition onTrue onFalse, reread => by
    obtain ⟨both, third⟩ := allReread_append.mp reread
    obtain ⟨first, second⟩ := allReread_append.mp both
    simp [exprDatum, Library.Legible, Library.LegibleMembers, legible_exprDatum condition first,
      legible_exprDatum onTrue second, legible_exprDatum onFalse third]
  | .call _ args, reread => by
    simp [exprDatum, Library.Legible, Library.LegibleMembers, legible_exprData args reread]

theorem legible_exprData : ∀ (exprs : List Expr), AllReread json (floatsOfExprs exprs) →
    json.LegibleItems (exprData exprs)
  | [], _ => trivial
  | expr :: rest, reread =>
    have ⟨first, others⟩ := allReread_append.mp reread
    ⟨legible_exprDatum expr first, legible_exprData rest others⟩

end

theorem legible_optionalExprDatum (expr : Option Expr) (reread : AllReread json (floatsOfOption expr)) :
    json.Legible (optionalExprDatum expr) := by
  cases expr with
  | none => trivial
  | some expr => exact legible_exprDatum expr reread

mutual

theorem legible_stmtDatum : ∀ (stmt : Stmt), AllReread json stmt.floats →
    json.Legible (stmtDatum stmt)
  | .assign _ value, reread | .effect value, reread => by
    simp [stmtDatum, Library.Legible, Library.LegibleMembers, legible_exprDatum value reread]
  | .ifChain arms, reread => by
    simp [stmtDatum, Library.Legible, Library.LegibleMembers, legible_armData arms reread]
  | .whileLoop head body, reread | .forLoop _ head body, reread => by
    obtain ⟨first, second⟩ := allReread_append.mp reread
    simp [stmtDatum, Library.Legible, Library.LegibleMembers, legible_exprDatum head first,
      legible_stmtData body second]
  | .ret value, reread => by
    simp [stmtDatum, Library.Legible, Library.LegibleMembers,
      legible_optionalExprDatum value reread]

theorem legible_stmtData : ∀ (stmts : List Stmt), AllReread json (floatsOfStmts stmts) →
    json.LegibleItems (stmtData stmts)
  | [], _ => trivial
  | stmt :: rest, reread =>
    have ⟨first, others⟩ := allReread_append.mp reread
    ⟨legible_stmtDatum stmt first, legible_stmtData rest others⟩

theorem legible_armDatum : ∀ (arm : Arm), AllReread json arm.floats → json.Legible (armDatum arm)
  | .mk condition body, reread => by
    obtain ⟨first, second⟩ := allReread_append.mp reread
    simp [armDatum, Library.Legible, Library.LegibleMembers,
      legible_optionalExprDatum condition first, legible_stmtData body second]

theorem legible_armData : ∀ (arms : List Arm), AllReread json (floatsOfArms arms) →
    json.LegibleItems (armData arms)
  | [], _ => trivial
  | arm :: rest, reread =>
    have ⟨first, others⟩ := allReread_append.mp reread
    ⟨legible_armDatum arm first, legible_armData rest others⟩

end

/-! ## Expressions -/

theorem readScalar_toInt (value : Int64) :
    ExprField.int.readScalar (.integer value.toInt) = .ok (.int value) := by
  have high : value.toInt ≤ Datum.greatestInteger := value.toInt_le
  simp [ExprField.readScalar, Datum.asInteger, high, Functor.map, Except.map]

theorem readScalar_float {datum : Datum} {x : Binary64} (read : datum.asFloat = .ok x) :
    ExprField.float.readScalar datum = .ok (.float x) := by
  rw [ExprField.readScalar, read]
  rfl

theorem readScalar_operator (op : BinaryOperator) :
    ExprField.operator.readScalar (.string op.name) = .ok (.operator op) := by
  cases op <;> rfl

theorem readExpr_eq_ok {members : List (String × Datum)} {form : ExprForm} {parts : ExprParts}
    {expr : Expr} (kind : readKind ExprForm.named members = .ok form)
    (found : readExprMembers form.fields members [] = .ok parts)
    (built : form.build parts lacking = .ok expr) : readExpr (.record members) = .ok expr := by
  simp only [readExpr, kind, found, built, bind, Except.bind]

section Members

variable {fields : List (String × ExprField)} {name : String} {datum : Datum}
  {rest : List (String × Datum)} {parts all : ExprParts}

/-- A member that is no field is passed over. -/
theorem readExprMembers_other (other : fields.lookup name = none)
    (found : readExprMembers fields rest parts = .ok all) :
    readExprMembers fields ((name, datum) :: rest) parts = .ok all := by
  rw [readExprMembers, other]
  exact found

theorem readExprMembers_scalar {field : ExprField} {part : ExprPart}
    (known : fields.lookup name = some field) (fresh : parts.lookup name = none)
    (scalar : field ∉ [.expr, .exprs]) (read : field.readScalar datum = .ok part)
    (found : readExprMembers fields rest ((name, part) :: parts) = .ok all) :
    readExprMembers fields ((name, datum) :: rest) parts = .ok all := by
  rw [readExprMembers, known]
  cases field with
  | expr | exprs => simp at scalar
  | _ => simp [fresh, read, found, bind, Except.bind]

theorem readExprMembers_expr {expr : Expr}
    (known : fields.lookup name = some .expr) (fresh : parts.lookup name = none)
    (read : readExpr datum = .ok expr)
    (found : readExprMembers fields rest ((name, .expr expr) :: parts) = .ok all) :
    readExprMembers fields ((name, datum) :: rest) parts = .ok all := by
  rw [readExprMembers, known]
  simp [fresh, read, found, bind, Except.bind, Functor.map, Except.map]

theorem readExprMembers_exprs {items : List Datum} {exprs : List Expr}
    (known : fields.lookup name = some .exprs) (fresh : parts.lookup name = none)
    (read : readExprs items = .ok exprs)
    (found : readExprMembers fields rest ((name, .exprs exprs) :: parts) = .ok all) :
    readExprMembers fields ((name, .list items) :: rest) parts = .ok all := by
  rw [readExprMembers, known]
  simp [fresh, read, found, bind, Except.bind, Functor.map, Except.map]
end Members

mutual

/-- An expression is read back from what its text says. -/
theorem exists_readExpr : ∀ (expr : Expr), AllReread json expr.floats →
    ∃ found, readExpr (json.echo (exprDatum expr)) = .ok found ∧ found.same expr
  | .bool value, _ => ⟨.bool value, rfl, by simp [Expr.same]⟩
  | .int value, _ => by
    refine ⟨.int value, ?_, by simp [Expr.same]⟩
    exact readExpr_eq_ok rfl
      (readExprMembers_other rfl
        (readExprMembers_scalar rfl rfl (by decide) (readScalar_toInt value) rfl)) rfl
  | .float value, reread => by
    obtain ⟨found, read, same⟩ := (reread value (by simp [Expr.floats])).2.asFloat
    refine ⟨.float found, ?_, by simpa [Expr.same] using same⟩
    exact readExpr_eq_ok rfl
      (readExprMembers_other rfl
        (readExprMembers_scalar rfl rfl (by decide) (readScalar_float read) rfl)) rfl
  | .string value, _ => ⟨.string value, rfl, by simp [Expr.same]⟩
  | .name name, _ => ⟨.name name, rfl, by simp [Expr.same]⟩
  | .binary op left right, reread => by
    obtain ⟨first, second⟩ := allReread_append.mp reread
    obtain ⟨left', readLeft, sameLeft⟩ := exists_readExpr left first
    obtain ⟨right', readRight, sameRight⟩ := exists_readExpr right second
    refine ⟨.binary op left' right', ?_, by simp [Expr.same, sameLeft, sameRight]⟩
    exact readExpr_eq_ok rfl
      (readExprMembers_other rfl
        (readExprMembers_scalar rfl rfl (by decide) (readScalar_operator op)
          (readExprMembers_expr rfl rfl readLeft (readExprMembers_expr rfl rfl readRight rfl)))) rfl
  | .not operand, reread => by
    obtain ⟨operand', read, same⟩ := exists_readExpr operand reread
    refine ⟨.not operand', ?_, by simpa [Expr.same] using same⟩
    exact readExpr_eq_ok rfl
      (readExprMembers_other rfl (readExprMembers_expr rfl rfl read rfl)) rfl
  | .and left right, reread => by
    obtain ⟨first, second⟩ := allReread_append.mp reread
    obtain ⟨left', readLeft, sameLeft⟩ := exists_readExpr left first
    obtain ⟨right', readRight, sameRight⟩ := exists_readExpr right second
    refine ⟨.and left' right', ?_, by simp [Expr.same, sameLeft, sameRight]⟩
    exact readExpr_eq_ok rfl
      (readExprMembers_other rfl
        (readExprMembers_expr rfl rfl readLeft (readExprMembers_expr rfl rfl readRight rfl))) rfl
  | .or left right, reread => by
    obtain ⟨first, second⟩ := allReread_append.mp reread
    obtain ⟨left', readLeft, sameLeft⟩ := exists_readExpr left first
    obtain ⟨right', readRight, sameRight⟩ := exists_readExpr right second
    refine ⟨.or left' right', ?_, by simp [Expr.same, sameLeft, sameRight]⟩
    exact readExpr_eq_ok rfl
      (readExprMembers_other rfl
        (readExprMembers_expr rfl rfl readLeft (readExprMembers_expr rfl rfl readRight rfl))) rfl
  | .ternary condition onTrue onFalse, reread => by
    obtain ⟨both, third⟩ := allReread_append.mp reread
    obtain ⟨first, second⟩ := allReread_append.mp both
    obtain ⟨condition', readCondition, sameCondition⟩ := exists_readExpr condition first
    obtain ⟨onTrue', readTrue, sameTrue⟩ := exists_readExpr onTrue second
    obtain ⟨onFalse', readFalse, sameFalse⟩ := exists_readExpr onFalse third
    refine ⟨.ternary condition' onTrue' onFalse', ?_,
      by simp [Expr.same, sameCondition, sameTrue, sameFalse]⟩
    exact readExpr_eq_ok rfl
      (readExprMembers_other rfl
        (readExprMembers_expr rfl rfl readCondition
          (readExprMembers_expr rfl rfl readTrue (readExprMembers_expr rfl rfl readFalse rfl)))) rfl
  | .index container position, reread => by
    obtain ⟨first, second⟩ := allReread_append.mp reread
    obtain ⟨container', readContainer, sameContainer⟩ := exists_readExpr container first
    obtain ⟨position', readPosition, samePosition⟩ := exists_readExpr position second
    refine ⟨.index container' position', ?_, by simp [Expr.same, sameContainer, samePosition]⟩
    exact readExpr_eq_ok rfl
      (readExprMembers_other rfl
        (readExprMembers_expr rfl rfl readContainer
          (readExprMembers_expr rfl rfl readPosition rfl))) rfl
  | .call callee args, reread => by
    obtain ⟨args', read, same⟩ := exists_readExprs args reread
    refine ⟨.call callee args', ?_, by simp [Expr.same, same]⟩
    exact readExpr_eq_ok rfl
      (readExprMembers_other rfl
        (readExprMembers_scalar rfl rfl (by decide) rfl (readExprMembers_exprs rfl rfl read rfl))) rfl

theorem exists_readExprs : ∀ (exprs : List Expr), AllReread json (floatsOfExprs exprs) →
    ∃ found, readExprs (json.echoItems (exprData exprs)) = .ok found ∧ sameExprs found exprs
  | [], _ => ⟨[], rfl, rfl⟩
  | expr :: rest, reread => by
    obtain ⟨first, others⟩ := allReread_append.mp reread
    obtain ⟨expr', readFirst, sameFirst⟩ := exists_readExpr expr first
    obtain ⟨rest', readRest, sameRest⟩ := exists_readExprs rest others
    refine ⟨expr' :: rest', ?_, by simp [sameExprs, sameFirst, sameRest]⟩
    rw [exprData, Library.echoItems, readExprs, readFirst, readRest]
    rfl

end

/-! ## Statements -/

theorem readStmt_eq_ok {members : List (String × Datum)} {form : StmtForm} {parts : StmtParts}
    {stmt : Stmt} (kind : readKind StmtForm.named members = .ok form)
    (found : readStmtMembers form.fields members [] = .ok parts)
    (built : form.build parts lacking = .ok stmt) : readStmt (.record members) = .ok stmt := by
  simp only [readStmt, kind, found, built, bind, Except.bind]

theorem readArm_eq_ok {members : List (String × Datum)} {parts : StmtParts} {arm : Arm}
    (found : readStmtMembers armFields members [] = .ok parts)
    (built : buildArm parts lacking = .ok arm) : readArm (.record members) = .ok arm := by
  simp only [readArm, found, built, bind, Except.bind]

section Members

variable {fields : List (String × StmtField)} {name : String} {datum : Datum}
  {items : List Datum} {rest : List (String × Datum)} {parts all : StmtParts}

/-- A member that is no field is passed over. -/
theorem readStmtMembers_other (other : fields.lookup name = none)
    (found : readStmtMembers fields rest parts = .ok all) :
    readStmtMembers fields ((name, datum) :: rest) parts = .ok all := by
  rw [readStmtMembers, other]
  exact found

theorem readStmtMembers_plain {field : StmtField} {part : StmtPart}
    (known : fields.lookup name = some field) (fresh : parts.lookup name = none)
    (plain : field ∉ [.stmts, .arms]) (read : field.readPlain datum = .ok part)
    (found : readStmtMembers fields rest ((name, part) :: parts) = .ok all) :
    readStmtMembers fields ((name, datum) :: rest) parts = .ok all := by
  rw [readStmtMembers, known]
  cases field with
  | stmts | arms => simp at plain
  | _ => simp [fresh, read, found, bind, Except.bind]

theorem readStmtMembers_stmts {stmts : List Stmt}
    (known : fields.lookup name = some .stmts) (fresh : parts.lookup name = none)
    (read : readStmts items = .ok stmts)
    (found : readStmtMembers fields rest ((name, .stmts stmts) :: parts) = .ok all) :
    readStmtMembers fields ((name, .list items) :: rest) parts = .ok all := by
  rw [readStmtMembers, known]
  simp [fresh, read, found, bind, Except.bind, Functor.map, Except.map]

theorem readStmtMembers_arms {arms : List Arm}
    (known : fields.lookup name = some .arms) (fresh : parts.lookup name = none)
    (read : readArms items = .ok arms)
    (found : readStmtMembers fields rest ((name, .arms arms) :: parts) = .ok all) :
    readStmtMembers fields ((name, .list items) :: rest) parts = .ok all := by
  rw [readStmtMembers, known]
  simp [fresh, read, found, bind, Except.bind, Functor.map, Except.map]

end Members

theorem readPlain_expr {datum : Datum} {expr : Expr} (read : readExpr datum = .ok expr) :
    StmtField.expr.readPlain datum = .ok (.expr expr) := by
  rw [StmtField.readPlain, read]
  rfl

/-- An absent expression is written as `null`, which no expression is. -/
theorem exists_readPlain_optionalExpr (expr : Option Expr)
    (reread : AllReread json (floatsOfOption expr)) :
    ∃ found, StmtField.optionalExpr.readPlain (json.echo (optionalExprDatum expr)) =
      .ok (.optionalExpr found) ∧ sameOptionExpr found expr := by
  cases expr with
  | none => exact ⟨none, rfl, rfl⟩
  | some expr =>
    obtain ⟨found, read, same⟩ := exists_readExpr expr reread
    have asOptional : (json.echo (exprDatum expr)).asOptional readExpr =
        some <$> readExpr (json.echo (exprDatum expr)) := by cases expr <;> rfl
    refine ⟨some found, ?_, same⟩
    rw [optionalExprDatum, StmtField.readPlain, asOptional, read]
    rfl

mutual

/-- A statement is read back from what its text says. -/
theorem exists_readStmt : ∀ (stmt : Stmt), AllReread json stmt.floats →
    ∃ found, readStmt (json.echo (stmtDatum stmt)) = .ok found ∧ found.same stmt
  | .assign target value, reread => by
    obtain ⟨value', read, same⟩ := exists_readExpr value reread
    refine ⟨.assign target value', ?_, by simp [Stmt.same, same]⟩
    exact readStmt_eq_ok rfl
      (readStmtMembers_other rfl
        (readStmtMembers_plain rfl rfl (by decide) rfl
          (readStmtMembers_plain rfl rfl (by decide) (readPlain_expr read) rfl))) rfl
  | .ifChain arms, reread => by
    obtain ⟨arms', read, same⟩ := exists_readArms arms reread
    refine ⟨.ifChain arms', ?_, by simpa [Stmt.same] using same⟩
    exact readStmt_eq_ok rfl
      (readStmtMembers_other rfl (readStmtMembers_arms rfl rfl read rfl)) rfl
  | .whileLoop condition body, reread => by
    obtain ⟨first, second⟩ := allReread_append.mp reread
    obtain ⟨condition', readCondition, sameCondition⟩ := exists_readExpr condition first
    obtain ⟨body', readBody, sameBody⟩ := exists_readStmts body second
    refine ⟨.whileLoop condition' body', ?_, by simp [Stmt.same, sameCondition, sameBody]⟩
    exact readStmt_eq_ok rfl
      (readStmtMembers_other rfl
        (readStmtMembers_plain rfl rfl (by decide) (readPlain_expr readCondition)
          (readStmtMembers_stmts rfl rfl readBody rfl))) rfl
  | .forLoop target source body, reread => by
    obtain ⟨first, second⟩ := allReread_append.mp reread
    obtain ⟨source', readSource, sameSource⟩ := exists_readExpr source first
    obtain ⟨body', readBody, sameBody⟩ := exists_readStmts body second
    refine ⟨.forLoop target source' body', ?_, by simp [Stmt.same, sameSource, sameBody]⟩
    exact readStmt_eq_ok rfl
      (readStmtMembers_other rfl
        (readStmtMembers_plain rfl rfl (by decide) rfl
          (readStmtMembers_plain rfl rfl (by decide) (readPlain_expr readSource)
            (readStmtMembers_stmts rfl rfl readBody rfl)))) rfl
  | .ret value, reread => by
    obtain ⟨value', read, same⟩ := exists_readPlain_optionalExpr value reread
    refine ⟨.ret value', ?_, by simpa [Stmt.same] using same⟩
    exact readStmt_eq_ok rfl
      (readStmtMembers_other rfl (readStmtMembers_plain rfl rfl (by decide) read rfl)) rfl
  | .effect value, reread => by
    obtain ⟨value', read, same⟩ := exists_readExpr value reread
    refine ⟨.effect value', ?_, by simpa [Stmt.same] using same⟩
    exact readStmt_eq_ok rfl
      (readStmtMembers_other rfl
        (readStmtMembers_plain rfl rfl (by decide) (readPlain_expr read) rfl)) rfl

theorem exists_readStmts : ∀ (stmts : List Stmt), AllReread json (floatsOfStmts stmts) →
    ∃ found, readStmts (json.echoItems (stmtData stmts)) = .ok found ∧ sameStmts found stmts
  | [], _ => ⟨[], rfl, rfl⟩
  | stmt :: rest, reread => by
    obtain ⟨first, others⟩ := allReread_append.mp reread
    obtain ⟨stmt', readFirst, sameFirst⟩ := exists_readStmt stmt first
    obtain ⟨rest', readRest, sameRest⟩ := exists_readStmts rest others
    refine ⟨stmt' :: rest', ?_, by simp [sameStmts, sameFirst, sameRest]⟩
    rw [stmtData, Library.echoItems, readStmts, readFirst, readRest]
    rfl

theorem exists_readArms : ∀ (arms : List Arm), AllReread json (floatsOfArms arms) →
    ∃ found, readArms (json.echoItems (armData arms)) = .ok found ∧ sameArms found arms
  | [], _ => ⟨[], rfl, rfl⟩
  | .mk condition body :: rest, reread => by
    obtain ⟨arm, others⟩ := allReread_append.mp reread
    obtain ⟨first, second⟩ := allReread_append.mp arm
    obtain ⟨condition', readCondition, sameCondition⟩ :=
      exists_readPlain_optionalExpr condition first
    obtain ⟨body', readBody, sameBody⟩ := exists_readStmts body second
    obtain ⟨rest', readRest, sameRest⟩ := exists_readArms rest others
    refine ⟨.mk condition' body' :: rest', ?_, by simp [sameArms, sameCondition, sameBody, sameRest]⟩
    have readFirst :
        readArm (json.echo (armDatum (.mk condition body))) = .ok (.mk condition' body') :=
      readArm_eq_ok
        (readStmtMembers_plain rfl rfl (by decide) readCondition
          (readStmtMembers_stmts rfl rfl readBody rfl)) rfl
    rw [armData, Library.echoItems, readArms, readFirst, readRest]
    rfl

end

/-! ## Lists -/

section Items

variable {α : Type} {write : α → Datum} {read : Datum → Reading α} {items : List α}

theorem legibleItems_map (legible : ∀ item ∈ items, json.Legible (write item)) :
    json.LegibleItems (items.map write) := by
  induction items with
  | nil => trivial
  | cons item rest ih =>
    obtain ⟨first, others⟩ := List.forall_mem_cons.mp legible
    exact ⟨first, ih others⟩

/-- Items that are read back each for itself are read back as a list. -/
theorem exists_readItems {same : α → α → Prop}
    (reads : ∀ item ∈ items, ∃ found, read (json.echo (write item)) = .ok found ∧ same found item)
    (index : Nat) :
    ∃ found, Datum.readItems read index (json.echoItems (items.map write)) = .ok found ∧
      List.Forall₂ same found items := by
  induction items generalizing index with
  | nil => exact ⟨[], rfl, .nil⟩
  | cons item rest ih =>
    obtain ⟨⟨first, readFirst, sameFirst⟩, others⟩ := List.forall_mem_cons.mp reads
    obtain ⟨found, readRest, sameRest⟩ := ih others (index + 1)
    refine ⟨first :: found, ?_, .cons sameFirst sameRest⟩
    rw [List.map_cons, Library.echoItems, Datum.readItems, readFirst, readRest]
    rfl

end Items

/-! ## Functions and modules -/

theorem takeInMembers_of_breakage {α : Type} (named : List (String × α))
    {members : List (String × Datum)} (plain : ∀ member ∈ members, member.1 ≠ "kind")
    (sound : Datum.breakageInRecord members = none) (kindSeen : Bool) :
    takeInMembers named kindSeen members = .ok () := by
  induction members with
  | nil => rfl
  | cons member rest ih =>
    rw [Datum.breakageInRecord, Option.or_eq_none_iff] at sound
    obtain ⟨other, others⟩ := List.forall_mem_cons.mp plain
    rw [takeInMembers, if_neg other, Datum.buffer, sound.1]
    exact ih others sound.2

theorem takeIn_of_breakage {α : Type} {named : List (String × α)} {form : String}
    {members : List (String × Datum)} (known : (named.lookup form).isSome = true)
    (plain : ∀ member ∈ members, member.1 ≠ "kind")
    (sound : Datum.breakageInRecord members = none) :
    takeIn named (.record (("kind", .string form) :: members)) = .ok () := by
  obtain ⟨value, found⟩ := Option.isSome_iff_exists.mp known
  rw [takeIn, takeInMembers, if_pos rfl, readFormName, Datum.chooseVariant, found]
  exact takeInMembers_of_breakage named plain sound true

/-- A statement of a function's body is taken in as a whole, and then read. -/
theorem exists_readBodyStmt (stmt : Stmt) (reread : AllReread json stmt.floats) :
    ∃ found, readBodyStmt (json.echo (stmtDatum stmt)) = .ok found ∧ found.same stmt := by
  obtain ⟨found, read, same⟩ := exists_readStmt stmt reread
  have sound := Library.breakage_echo _ (legible_stmtDatum stmt reread)
  have taken : takeIn StmtForm.named (json.echo (stmtDatum stmt)) = .ok () := by
    cases stmt <;> exact takeIn_of_breakage rfl (by simp [Library.echoMembers]) sound
  refine ⟨found, ?_, same⟩
  rw [readBodyStmt, taken]
  exact read

theorem exists_readItems_stmtData (stmts : List Stmt) (reread : AllReread json (floatsOfStmts stmts))
    (index : Nat) :
    ∃ found, Datum.readItems readBodyStmt index (json.echoItems (stmtData stmts)) = .ok found ∧
      sameStmts found stmts := by
  induction stmts generalizing index with
  | nil => exact ⟨[], rfl, rfl⟩
  | cons stmt rest ih =>
    obtain ⟨first, others⟩ := allReread_append.mp reread
    obtain ⟨stmt', readFirst, sameFirst⟩ := exists_readBodyStmt stmt first
    obtain ⟨rest', readRest, sameRest⟩ := ih others (index + 1)
    refine ⟨stmt' :: rest', ?_, by simp [sameStmts, sameFirst, sameRest]⟩
    rw [stmtData, Library.echoItems, Datum.readItems, readFirst, readRest]
    rfl

theorem readItems_paramDatum (json : Library) (params : List Param) (index : Nat) :
    Datum.readItems readParam index (json.echoItems (params.map paramDatum)) = .ok params := by
  have reads : ∀ param ∈ params,
      ∃ found, readParam (json.echo (paramDatum param)) = .ok found ∧ found = param :=
    fun param _ => ⟨param, rfl, rfl⟩
  obtain ⟨found, read, same⟩ := exists_readItems reads index
  rw [List.forall₂_eq_eq_eq] at same
  rw [read, same]

theorem within_ok {α : Type} (step : DatumStep) (found : α) :
    within step (.ok found) = .ok found := rfl

theorem exists_readFunction (function : Function)
    (reread : AllReread json (floatsOfStmts function.body)) :
    ∃ found, readFunction (json.echo (functionDatum function)) = .ok found ∧
      found.same function := by
  obtain ⟨body, read, same⟩ := exists_readItems_stmtData function.body reread 0
  refine ⟨{ function with body }, ?_, by simp [Function.same, same]⟩
  have params := readItems_paramDatum json function.params 0
  simp [readFunction, Field.readStructure, functionDatum, Library.echo, Library.echoMembers,
    Datum.members?, Field.readMembers, functionFields, Datum.asString, Datum.asList, params, read,
    within_ok, bind, Except.bind, pure, Except.pure]

theorem legible_functionDatum (function : Function)
    (reread : AllReread json (floatsOfStmts function.body)) :
    json.Legible (functionDatum function) := by
  have params : json.LegibleItems (function.params.map paramDatum) :=
    legibleItems_map fun param _ => by simp [paramDatum, Library.Legible, Library.LegibleMembers]
  simp [functionDatum, Library.Legible, Library.LegibleMembers, params,
    legible_stmtData function.body reread]

theorem Module.same_iff {found functions : List Function} :
    Module.same ⟨found⟩ ⟨functions⟩ ↔ List.Forall₂ (fun f g => f.same g) found functions := by
  simp [Module.same, List.forall₂_iff_zip]

/-- A module tree comes back from its JSON text, if its floating-point literals are finite and not more
than 127 brackets of the text stand inside each other. Of the library it is assumed that numbers
come back, that strings come back, and that only deeper nesting is rejected. -/
theorem Module.ofJson?_toJson (json : Library) (module : Module)
    (numbers : json.RereadsNumbers module.floats) (strings : json.RereadsStrings)
    (nested : json.RereadsNested 127) (finite : ∀ x ∈ module.floats, x.isFinite = true)
    (shallow : (moduleDatum module).nesting ≤ 127) :
    ∃ found, Module.ofJson? (module.toJson json) json = .ok found ∧ found.same module = true := by
  have reread : AllReread json module.floats := fun x mem =>
    ⟨finite x mem, numbers.floats x mem (finite x mem)⟩
  have own : ∀ function ∈ module.functions, AllReread json (floatsOfStmts function.body) :=
    fun function mem x there => reread x (List.mem_flatMap.mpr ⟨function, mem, there⟩)
  have legible : json.Legible (moduleDatum module) :=
    ⟨legibleItems_map fun function mem => legible_functionDatum function (own function mem), trivial⟩
  obtain ⟨functions, read, same⟩ :=
    exists_readItems (fun function mem => exists_readFunction function (own function mem)) 0
  refine ⟨⟨functions⟩, ?_, Module.same_iff.mpr same⟩
  rw [Module.ofJson?, Module.toJson, Library.read_eq_ok_iff,
    Library.parse_print numbers strings nested legible shallow]
  refine ⟨?_, rfl⟩
  simp [readModule, Field.readStructure, moduleDatum, Library.echo, Library.echoMembers,
    Datum.members?, Field.readMembers, moduleFields, Datum.asList, read, within_ok,
    bind, Except.bind, pure, Except.pure]

/-- A module with every form of statement and expression, and with characters that JSON escapes. -/
def Module.specimen : Module :=
  ⟨[{ name := "f"
      params := [⟨"x", "int"⟩, ⟨"größe", "str"⟩]
      returns := "bool"
      body :=
        [.assign "half" (.float ⟨0x3FE0000000000000⟩),
         .assign "text" (.string "a \"quoted\" \\ line\nand a bell \x07"),
         .whileLoop (.and (.not (.bool false)) (.binary .lt (.name "x") (.int Int64.minValue)))
           [.ifChain
             [.mk (some (.or (.name "half") (.float ⟨0x8000000000000000⟩)))
                [.effect (.call "print" [.name "text", .float ⟨0x7FEFFFFFFFFFFFFF⟩])],
              .mk none []]],
         .forLoop "c" (.call "range" [.int 0, .int 3, .int 1])
           [.assign "x" (.ternary (.bool true) (.index (.name "größe") (.name "c")) (.name "x"))],
         .ret (some (.bool true)),
         .ret none] }]⟩

theorem Module.specimen_survives :
    Json.standard.RereadsNumbers Module.specimen.floats ∧ Json.standard.RereadsStrings ∧
      Json.standard.RereadsNested 127 ∧ (∀ x ∈ Module.specimen.floats, x.isFinite = true) ∧
      (moduleDatum Module.specimen).nesting ≤ 127 ∧
      ∃ found, Module.ofJson? Module.specimen.toJson = .ok found ∧
        found.same Module.specimen = true := by
  have numbers : Json.standard.RereadsNumbers Module.specimen.floats :=
    Json.standard_rereadsNumbers (by decide +kernel)
  have finite : ∀ x ∈ Module.specimen.floats, x.isFinite = true := by decide +kernel
  have shallow : (moduleDatum Module.specimen).nesting ≤ 127 := by decide +kernel
  exact ⟨numbers, Json.standard_rereadsStrings, Json.standard_rereadsNested, finite, shallow,
    Module.ofJson?_toJson Json.standard Module.specimen numbers Json.standard_rereadsStrings
      Json.standard_rereadsNested finite shallow⟩

end Tree

end LlvmBackend
