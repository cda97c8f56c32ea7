import LlvmBackend.Proofs.Checker.Stmt
import LlvmBackend.Proofs.Lowering.Plain

/-! # Names of types in trees

If all references between types lead somewhere, no expression and no statement fails over the name of
a type: the only types that they name are those that the registry itself names.
-/

namespace LlvmBackend.Lowering

open Ir

variable {env : Surroundings}

/-! ## Steps -/

theorem resolves_literal (add : Pool → Value × Pool) : Resolves (literal add) := by
  rintro _ _ _ ⟨⟩

theorem resolves_used {step : Lowering (Option Value)} (each : Resolves step) :
    Resolves (step >>= required) := by
  refine each.bind fun result => ?_
  cases result <;> rintro _ _ _ ⟨⟩

variable (closed : env.types.Closed)

include closed

/-! ## Forms of expressions -/

theorem resolves_condition {test : Lowering Value} (tests : Resolves test) :
    Resolves (condition env test) := by
  refine tests.bind fun value => ((plain_coerceToBool value).resolves closed).bind fun truth => ?_
  exact (plain_operandOf truth).resolves closed

theorem resolves_binary (op : BinaryOperator) {left right : Lowering Value}
    (lefts : Resolves left) (rights : Resolves right) : Resolves (binary env op left right) :=
  lefts.bind fun l => rights.bind fun r => (plain_binary op l r).resolves closed

theorem resolves_connect (connective : Connective) {left right : Lowering Value}
    (lefts : Resolves left) (rights : Resolves right) :
    Resolves (connect env connective left right) := by
  rw [connect_eq]
  refine lefts.bind fun l => ((plain_enterRight connective l).resolves closed).bind fun entered => ?_
  exact rights.bind fun r => (plain_connected l r _ _ _).resolves closed

theorem resolves_choose {test : Lowering Operand} {onTrue onFalse : Lowering Value}
    (tests : Resolves test) (trues : Resolves onTrue) (falses : Resolves onFalse) :
    Resolves (choose env test onTrue onFalse) := by
  rw [choose_eq]
  refine tests.bind fun flag => ((plain_enterTrue flag).resolves closed).bind fun entered => ?_
  refine trues.bind fun a => ((plain_enterFalse a _ _).resolves closed).bind fun placed => ?_
  exact falses.bind fun b => (plain_chosen _ _ b _).resolves closed

theorem resolves_element {container position : Lowering Value} (containers : Resolves container)
    (positions : Resolves position) : Resolves (element env container position) := by
  rw [element_eq]
  refine containers.bind fun c => ?_
  split
  · exact (Plain.fails fun _ => by simp).resolves closed
  · exact positions.bind fun p => (plain_element c p).resolves closed

theorem resolves_call (callee : String) {args : Lowering (List Value)} (each : Resolves args) :
    Resolves (call env callee args) := by
  refine ((plain_callee callee _).resolves closed).bind fun target => each.bind fun values => ?_
  exact (plain_dispatch target values).resolves closed

/-! ## Expressions -/

omit closed

mutual

/-- An expression does not fail over the name of a type. -/
theorem resolves_operand? (closed : env.types.Closed) (e : Expr) : Resolves (operand? env e) := by
  cases e with
  | bool value | int value | float value | string value =>
      rw [operand?]
      exact (resolves_literal _).map
  | name name =>
      rw [operand?]
      exact ((plain_lookup name).resolves closed).map
  | binary op left right =>
      rw [operand?]
      exact (resolves_binary closed op (resolves_used (resolves_operand? closed left))
        (resolves_used (resolves_operand? closed right))).map
  | not operand =>
      rw [operand?]
      refine ((resolves_used (resolves_operand? closed operand)).bind fun value => ?_).map
      refine ((plain_coerceToBool value).resolves closed).bind fun truth => ?_
      exact (plain_negate truth).resolves closed
  | and left right =>
      rw [operand?]
      exact (resolves_connect closed .and (resolves_used (resolves_operand? closed left))
        (resolves_used (resolves_operand? closed right))).map
  | or left right =>
      rw [operand?]
      exact (resolves_connect closed .or (resolves_used (resolves_operand? closed left))
        (resolves_used (resolves_operand? closed right))).map
  | ternary test onTrue onFalse =>
      rw [operand?]
      exact (resolves_choose closed
        (resolves_condition closed (resolves_used (resolves_operand? closed test)))
        (resolves_used (resolves_operand? closed onTrue))
        (resolves_used (resolves_operand? closed onFalse))).map
  | index container position =>
      rw [operand?]
      exact (resolves_element closed (resolves_used (resolves_operand? closed container))
        (resolves_used (resolves_operand? closed position))).map
  | call callee args =>
      rw [operand?]
      exact resolves_call closed callee (resolves_operands closed args)

theorem resolves_operands (closed : env.types.Closed) (es : List Expr) : Resolves (operands env es) := by
  cases es with
  | nil =>
      rw [operands]
      exact .done
  | cons first rest =>
      rw [operands]
      refine (resolves_used (resolves_operand? closed first)).bind fun value => ?_
      exact (resolves_operands closed rest).bind fun values => .done

end

theorem resolves_value (closed : env.types.Closed) (e : Expr) : Resolves (value env e) :=
  resolves_used (resolves_operand? closed e)

theorem resolves_effect (closed : env.types.Closed) (e : Expr) : Resolves (effect env e) :=
  (resolves_operand? closed e).map

/-! ## Forms of statements -/

include closed

theorem resolves_assign (target : String) {value : Lowering Value} (values : Resolves value) :
    Resolves (assign env target value) :=
  values.bind fun v => (plain_assign target v).resolves closed

theorem resolves_enterLoop (a b c : String) {test : Lowering Operand} (tests : Resolves test) :
    Resolves (enterLoop a b c test) := by
  have block (hint : String) : Resolves (newBlock hint) :=
    (@plain_newBlock env.types hint).resolves closed
  refine (block a).bind fun head => (block b).bind fun bodyBlock => (block c).bind fun fin => ?_
  refine ((@plain_terminate env.types _).resolves closed).bind fun _ => ?_
  refine ((@plain_switchTo env.types _).resolves closed).bind fun _ => tests.bind fun flag => ?_
  refine ((@plain_terminate env.types _).resolves closed).bind fun _ => ?_
  exact ((@plain_switchTo env.types _).resolves closed).bind fun _ => .done

theorem resolves_loopWhile {test : Lowering Operand} {body : Lowering Unit}
    (tests : Resolves test) (bodies : Resolves body) : Resolves (loopWhile test body) := by
  rw [loopWhile_eq]
  refine (resolves_enterLoop closed _ _ _ tests).bind fun entered => bodies.bind fun _ => ?_
  refine ((@plain_branchIfOpen env.types _).resolves closed).bind fun _ => ?_
  exact (@plain_switchTo env.types _).resolves closed

theorem resolves_loopFor (target : String) {source : Lowering Value} {body : Lowering Unit}
    (sources : Resolves source) (bodies : Resolves body) :
    Resolves (loopFor env target source body) := by
  rw [loopFor_eq]
  refine sources.bind fun v => ((plain_iteration v.type).resolves closed).bind fun iteration => ?_
  refine ((plain_obtainAddress v).resolves closed).bind fun iterator => ?_
  refine ((plain_variableSlot _ _).resolves closed).bind fun slot => ?_
  refine ((plain_valueIr _).resolves closed).bind fun ir => ?_
  refine ((@plain_define env.types _ _).resolves closed).bind fun _ => ?_
  have asks : Plain env.types (temp >>= fun more => emit (.call (some more) .i1 iteration.1
      [iterator.1, ⟨ir.ptr, slot⟩]) >>= fun _ => pure more) :=
    plain_temp.bind fun more => (plain_emit _).bind fun _ => .done
  refine (resolves_enterLoop closed _ _ _ (asks.resolves closed)).bind fun entered => ?_
  refine bodies.bind fun _ => ((@plain_branchIfOpen env.types _).resolves closed).bind fun _ => ?_
  refine ((@plain_switchTo env.types _).resolves closed).bind fun _ => ?_
  exact (plain_release _).resolves closed

theorem resolves_leave (expr : Option Expr) : Resolves (leave env expr) := by
  have ends (terminator : Terminator) : Resolves (terminate terminator) :=
    (@plain_terminate env.types terminator).resolves closed
  have refused (found expected : TypeId) :
      Plain env.types (refuseReturn env found expected : Lowering PUnit) := plain_refuseReturn _ _
  unfold leave
  split
  · split
    · exact (resolves_effect closed _).bind fun _ => ends _
    · exact ends _
  · split
    · exact ((refused _ _).resolves closed).bind fun _ => ends _
    · exact ends _
  · split
    · exact (resolves_effect closed _).bind fun _ => ends _
    · exact (resolves_value closed _).bind fun v => (plain_returnValue _ v).resolves closed

theorem resolves_lastArm (fin : BlockId) {body : Lowering Unit} (bodies : Resolves body) :
    Resolves (lastArm fin body) := by
  refine bodies.bind fun _ => ((@plain_branchIfOpen env.types _).resolves closed).bind fun _ => ?_
  exact (@plain_switchTo env.types _).resolves closed

theorem resolves_guardedArm (fin : BlockId) (index : Nat) (rest : List Arm)
    {test : Lowering Operand} {body : Lowering Unit} (tests : Resolves test)
    (bodies : Resolves body) : Resolves (guardedArm fin index rest test body) := by
  refine tests.bind fun flag => ((@plain_newBlock env.types _).resolves closed).bind fun suite => ?_
  refine ((plain_nextArm fin _ rest).resolves closed).bind fun otherwise => ?_
  refine ((@plain_terminate env.types _).resolves closed).bind fun _ => ?_
  refine ((@plain_switchTo env.types _).resolves closed).bind fun _ => bodies.bind fun _ => ?_
  refine ((@plain_branchIfOpen env.types _).resolves closed).bind fun _ => ?_
  exact (@plain_switchTo env.types _).resolves closed

omit closed

/-! ## Statements -/

mutual

/-- A statement does not fail over the name of a type. -/
theorem resolves_stmt (closed : env.types.Closed) (s : Stmt) : Resolves (stmt env s) := by
  cases s with
  | assign target expr =>
      rw [stmt]
      exact resolves_assign closed target (resolves_value closed expr)
  | ifChain chain =>
      have block : Resolves (newBlock "if-fin") :=
        (@plain_newBlock env.types _).resolves closed
      cases chain with
      | nil =>
          rw [stmt]
          refine block.bind fun fin => ((@plain_terminate env.types _).resolves closed).bind ?_
          exact fun _ => (@plain_switchTo env.types _).resolves closed
      | cons first rest =>
          rw [stmt]
          exact block.bind fun fin => resolves_arms closed fin 0 (first :: rest)
  | whileLoop test body =>
      rw [stmt]
      exact resolves_loopWhile closed (resolves_condition closed (resolves_value closed test))
        (resolves_suite closed body)
  | forLoop target source body =>
      rw [stmt]
      exact resolves_loopFor closed target (resolves_value closed source)
        (resolves_suite closed body)
  | ret expr =>
      rw [stmt]
      exact resolves_leave closed expr
  | effect expr =>
      rw [stmt]
      exact resolves_effect closed expr

theorem resolves_suite (closed : env.types.Closed) (statements : List Stmt) :
    Resolves (suite env statements) := by
  cases statements with
  | nil =>
      rw [suite]
      exact .done
  | cons first rest =>
      rw [suite]
      refine ((@plain_isTerminated env.types).resolves closed).bind fun ended => ?_
      cases ended with
      | true => exact .done
      | false => exact (resolves_stmt closed first).bind fun _ => resolves_suite closed rest

theorem resolves_arms (closed : env.types.Closed) (fin : BlockId) (index : Nat)
    (chain : List Arm) : Resolves (arms env fin index chain) := by
  match chain with
  | [] =>
      rw [arms]
      exact .done
  | .mk none body :: _ =>
      rw [arms]
      exact resolves_lastArm closed fin (resolves_suite closed body)
  | .mk (some test) body :: rest =>
      rw [arms]
      refine (resolves_guardedArm closed fin index rest
        (resolves_condition closed (resolves_value closed test))
        (resolves_suite closed body)).bind fun _ => ?_
      exact resolves_arms closed fin (index + 1) rest

end

end LlvmBackend.Lowering
