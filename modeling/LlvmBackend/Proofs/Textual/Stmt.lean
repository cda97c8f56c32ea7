import LlvmBackend.Proofs.Checker.Stmt
import LlvmBackend.Proofs.Textual.Expr

/-! # Literals of statements

Statements after one that returns are left out, and their literals with them. So here it matters that
the block in use takes instructions: where it does, a statement gives its literals the constants that
the text tells, and what follows in its suite is lowered unless the statement returns.
-/

namespace LlvmBackend.Lowering

open Ir FunctionState
open Literal (ofExpr ofStmt ofSuite ofArms)

variable {slots : List Instr} {env : Surroundings} {before : List Literal} {state : FunctionState}
  {first second : List Literal}

/-! ## Forms of statements -/

theorem recites_assign (target : String) {value value' : Lowering Value}
    (values : Recites env.types before first value value' state) :
    Recites env.types before first (assign env target value) (assign env target value') state :=
  values.last (plain_assign target)

theorem recites_enterLoop (a b c : String) {test test' : Lowering Operand}
    (tests : ∀ state, Recites env.types before first test test' state) :
    Recites env.types before first (enterLoop a b c test) (enterLoop a b c test') state := by
  refine .after (plain_newBlock a) fun head _ _ => .after (plain_newBlock b) fun body _ _ => ?_
  refine .after (plain_newBlock c) fun fin _ _ => .after (plain_terminate _) fun _ _ _ => ?_
  refine .after (plain_switchTo _) fun _ later _ => (tests later).last fun flag => ?_
  exact (plain_terminate _).bind fun _ => (plain_switchTo _).bind fun _ => .done

theorem recites_loopWhile (ready : state.Ready slots) {test : Expr} {body body' : Lowering Unit}
    (bodies : ∀ later, later.Ready slots →
      Recites env.types (before ++ ofExpr test) second body body' later) :
    Recites env.types before (ofExpr test ++ second)
      (loopWhile (condition env (value env test)) body)
      (loopWhile (condition env (Textual.value env before test)) body') state := by
  rw [loopWhile_eq, loopWhile_eq]
  refine (recites_enterLoop _ _ _ fun _ => recites_condition (recites_value test)).bind
    fun entered later ran => ?_
  have inside := (enterLoop_yields ready _ _ _ fun later ready' known =>
    condition_emits env (value_emits env test ready' known)).ok ran
  refine (bodies later inside.1).last fun _ => ?_
  exact (plain_branchIfOpen _).bind fun _ => plain_switchTo _

theorem recites_loopFor (ready : state.Ready slots) (target : String) {source : Expr}
    {body body' : Lowering Unit}
    (bodies : ∀ later, later.Ready slots →
      Recites env.types (before ++ ofExpr source) second body body' later) :
    Recites env.types before (ofExpr source ++ second)
      (loopFor env target (value env source) body)
      (loopFor env target (Textual.value env before source) body') state := by
  rw [loopFor_eq, loopFor_eq]
  refine (recites_value source).bind fun v state₁ ran => ?_
  obtain ⟨_, _, made₁⟩ := (value_emits env source ready rfl).ok ran
  refine .after (plain_iteration v.type) fun (symbol, element) state₂ ran => ?_
  obtain ⟨entry, _, _, _, rfl⟩ := (iteration_yields env v.type).ok ran
  refine .after (plain_obtainAddress v) fun (iterator, v') state₃ ran => ?_
  obtain ⟨_, _, made₃⟩ := (obtainAddress_emits env made₁.ready v).ok ran
  refine .after (plain_variableSlot target element) fun slot state₄ ran => ?_
  obtain ⟨_, _, runs₄⟩ := (variableSlot_runs env made₃.ready target element).ok ran
  refine .after (plain_valueIr element) fun ir state₅ ran => ?_
  obtain ⟨_, _, rfl⟩ := (valueIr_yields env element).ok ran
  refine .after (plain_define target _) fun _ state₆ ran => ?_
  obtain ⟨_, runs₆⟩ := (define_runs target _ runs₄).ok ran
  have asks : Plain env.types (temp >>= fun more =>
      emit (.call (some more) .i1 symbol [iterator, ⟨ir.ptr, slot⟩]) >>= fun _ => pure more) :=
    plain_temp.bind fun more => (plain_emit _).bind fun _ => .done
  refine (recites_enterLoop _ _ _ asks.recites).silently fun entered later ran => ?_
  have emits (later : FunctionState) (ready' : later.Ready slots) :
      Emits slots (temp >>= fun more =>
        emit (.call (some more) .i1 symbol [iterator, ⟨ir.ptr, slot⟩]) >>= fun _ => pure more) later
        fun _ _ => True :=
    define_last ready' (fun more => .call (some more) .i1 symbol [iterator, ⟨ir.ptr, slot⟩])
      (fun _ => rfl) (fun _ => rfl) fun _ => trivial
  have inside := (enterLoop_yields (runs₆.ready rfl) _ _ _ fun later ready' _ =>
    emits later ready').ok ran
  refine (bodies later inside.1).last fun _ => (plain_branchIfOpen _).bind fun _ => ?_
  exact (plain_switchTo _).bind fun _ => plain_release v'

theorem recites_leave (expr : Option Expr) :
    Recites env.types before (ofStmt (.ret expr)) (leave env expr) (Textual.leave env before expr)
      state := by
  have refused {expected found : TypeId} :
      Plain env.types (refuseReturn env expected found : Lowering PUnit) := plain_refuseReturn _ _
  unfold leave Textual.leave
  cases env.outcome with
  | status =>
      cases expr with
      | none => exact (plain_terminate _).recites state
      | some expr => exact (recites_effect expr).last fun _ => plain_terminate _
  | result expected =>
      cases expr with
      | none =>
          by_cases void : expected ≠ Registry.void
          · simp only [if_pos void]
            exact (refused.bind fun _ => plain_terminate _).recites state
          · simp only [if_neg void]
            exact (plain_terminate _).recites state
      | some expr =>
          by_cases void : expected = Registry.void
          · simp only [if_pos void]
            exact (recites_effect expr).last fun _ => plain_terminate _
          · simp only [if_neg void]
            exact (recites_value expr).last (plain_returnValue expected)

theorem recites_lastArm (fin : BlockId) {body body' : Lowering Unit}
    (bodies : Recites env.types before first body body' state) :
    Recites env.types before first (lastArm fin body) (lastArm fin body') state :=
  bodies.last fun _ => (plain_branchIfOpen fin).bind fun _ => plain_switchTo fin

theorem recites_guardedArm (ready : state.Ready slots) {fin : BlockId}
    (exit : (state.site slots).Exit fin) (index : Nat) (rest : List Arm) {test : Expr}
    {body body' : Lowering Unit}
    (bodies : ∀ later, later.Ready slots →
      Recites env.types (before ++ ofExpr test) second body body' later) :
    Recites env.types before (ofExpr test ++ second)
      (guardedArm fin index rest (condition env (value env test)) body)
      (guardedArm fin index rest (condition env (Textual.value env before test)) body') state := by
  have enters : Recites env.types before (ofExpr test)
      (enterArm fin index rest (condition env (value env test)))
      (enterArm fin index rest (condition env (Textual.value env before test))) state := by
    refine (recites_condition (recites_value test)).last fun flag => ?_
    refine (plain_newBlock _).bind fun suite => (plain_nextArm fin _ rest).bind fun otherwise => ?_
    exact (plain_terminate _).bind fun _ => (plain_switchTo _).bind fun _ => .done
  rw [guardedArm_eq, guardedArm_eq]
  refine enters.bind fun otherwise later ran => ?_
  have inside := (enterArm_yields ready exit index rest
    (condition_emits env (value_emits env test ready rfl))).ok ran
  refine (bodies later inside.1).last fun _ => ?_
  exact (plain_branchIfOpen fin).bind fun _ => plain_switchTo _

/-! ## Statements -/

/-- Nothing is lowered where control left the function. -/
theorem recites_suite_terminated (statements : List Stmt)
    (closed : ¬ (state.site slots).Open) :
    Recites env.types before [] (suite env statements) (Textual.suite env before statements)
      state := by
  cases statements with
  | nil =>
      rw [suite, Textual.suite]
      exact .done
  | cons first rest =>
      rw [suite, Textual.suite]
      refine .after plain_isTerminated fun ended later ran => ?_
      obtain ⟨rfl, rfl⟩ := isTerminated_yields.ok ran
      simp only [terminated_of_not_open closed]
      exact .done

mutual

/-- A statement is lowered as its text tells. -/
theorem recites_stmt {before : List Literal} {state : FunctionState} (s : Stmt)
    (ready : state.Ready slots) :
    Recites env.types before (ofStmt s) (stmt env s) (Textual.stmt env before s) state := by
  cases s with
  | assign target expr =>
      rw [stmt, Textual.stmt]
      exact recites_assign target (recites_value expr)
  | ifChain chain =>
      cases chain with
      | nil =>
          rw [stmt, Textual.stmt]
          refine Plain.recites ((plain_newBlock "if-fin").bind fun fin => ?_) state
          exact (plain_terminate _).bind fun _ => plain_switchTo _
      | cons first rest =>
          rw [stmt, Textual.stmt]
          refine .after (plain_newBlock "if-fin") fun fin start ran => ?_
          obtain ⟨rfl, fresh, keeps⟩ := (newBlock_yields ready.valid "if-fin").ok ran
          have valid := ready.valid.fresh "if-fin"
          have isOpen := (Site.open_fresh ready.valid "if-fin").mpr ready.isOpen
          have exit := (ready.valid.pending_fresh "if-fin").exit valid
          exact recites_arms _ 0 (first :: rest) ⟨fresh ▸ valid, fresh ▸ isOpen⟩ (fresh ▸ exit)
  | whileLoop test body =>
      rw [stmt, Textual.stmt]
      exact recites_loopWhile ready fun later ready' => recites_suite body ready'
  | forLoop target source body =>
      rw [stmt, Textual.stmt]
      exact recites_loopFor ready target fun later ready' => recites_suite body ready'
  | ret expr =>
      rw [stmt, Textual.stmt]
      exact recites_leave expr
  | effect expr =>
      rw [stmt, Textual.stmt]
      exact recites_effect expr

/-- A suite is lowered as its text tells, up to its first return. -/
theorem recites_suite {before : List Literal} {state : FunctionState} (statements : List Stmt)
    (ready : state.Ready slots) :
    Recites env.types before (ofSuite statements) (suite env statements)
      (Textual.suite env before statements) state := by
  cases statements with
  | nil =>
      rw [suite, Textual.suite]
      exact .done
  | cons first rest =>
      rw [suite, Textual.suite]
      refine .after plain_isTerminated fun ended state ran => ?_
      obtain ⟨rfl, rfl⟩ := isTerminated_yields.ok ran
      simp only [ready.not_terminated]
      refine (recites_stmt first ready).bind fun _ later ran => ?_
      -- Control goes on behind the statement if and only if the text tells that it does.
      obtain ⟨ended, code, lowers, runs⟩ := (stmt_runs env first ready).ok ran
      rw [← lowers.isReturn]
      cases ended with
      | true =>
          have closed : ¬ (later.site slots).Open := by simp [runs.open_iff]
          exact recites_suite_terminated rest closed
      | false => exact recites_suite rest (runs.ready rfl)

theorem recites_arms {before : List Literal} {state : FunctionState} (fin : BlockId) (index : Nat)
    (chain : List Arm) (ready : state.Ready slots) (exit : (state.site slots).Exit fin) :
    Recites env.types before (ofArms chain) (arms env fin index chain)
      (Textual.arms env before fin index chain) state := by
  match chain with
  | [] =>
      rw [arms, Textual.arms]
      exact .done
  | .mk none body :: _ =>
      rw [arms, Textual.arms]
      exact recites_lastArm fin (recites_suite body ready)
  | .mk (some test) body :: rest =>
      rw [arms, Textual.arms, ofArms, ← List.append_assoc]
      refine (recites_guardedArm ready exit index rest fun later ready' =>
        recites_suite body ready').bind fun _ later ran => ?_
      rw [← List.append_assoc]
      cases rest with
      | nil =>
          rw [arms, Textual.arms]
          exact .done
      | cons another rest =>
          have works := @suite_works slots env state.names state.header body
            fun ready' => suite_runs env body ready'
          obtain ⟨ready', exit', _⟩ := (guardedArm_runs env ready rfl exit index another rest
            (value_emits env test ready rfl) works).ok ran
          exact recites_arms fin (index + 1) (another :: rest) ready' exit'

end

end LlvmBackend.Lowering
