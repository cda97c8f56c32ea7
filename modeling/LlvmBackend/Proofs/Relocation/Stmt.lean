import LlvmBackend.Lowering.Stmt
import LlvmBackend.Proofs.Relocation.Expr

/-! # Statements behind other code

Statements bind names to slots, and slots never have the symbol of a literal.
-/

namespace LlvmBackend.Lowering

open Ir

variable {env : Surroundings} {move : Relocation}

/-! ## Variables -/

theorem reusableSlot_relocate (state : FunctionState) (name : String) (type : TypeId) :
    reusableSlot? (move.state state) name type =
      (reusableSlot? state name type).map (·.rename move.symbol) := by
  have known : (move.state state).scopes.lookupLocal name =
      (state.scopes.lookupLocal name).map (·.rename move.symbol) :=
    state.scopes.lookupLocal_mapValues _ name
  have mem : ∀ slot : Operand,
      slot.rename move.symbol ∈ (move.state state).slots ↔ slot ∈ state.slots := fun _ =>
    List.mem_map_of_injective (Operand.rename_injective move.symbol_injective)
  simp only [reusableSlot?, Option.bind_eq_bind]
  rw [known]
  cases state.scopes.lookupLocal name with
  | none => rfl
  | some value =>
      simp only [Option.map_some, Option.bind_some, Value.rename_address]
      cases value.address with
      | none => rfl
      | some slot =>
          simp only [Option.map_some, Option.bind_some, Value.rename_type, mem]
          by_cases fits : value.type = type ∧ slot ∈ state.slots
          · simp [guard, fits]
          · simp only [guard, if_neg fits]
            rfl

theorem relocates_newSlot (name : String) (type : TypeId) :
    Relocates env.types move (·.rename move.symbol) (newSlot env name type)
      (newSlot env name type) := by
  refine (relocates_valueIr type).bind fun ir => ?_
  refine .bind (?_ : Relocates env.types move (Operand.rename move.symbol) _ _) fun slot => ?_
  · refine .modifies (fun _ => rfl) fun state => ?_
    simp only [Relocation.state, ← Builder.rename_hoist]
    rfl
  · refine relocates_functionName.bind fun function => ?_
    exact (relocates_note (.slot function slot name (env.types.name type))).bind fun _ => .done

theorem relocates_variableSlot (name : String) (type : TypeId) :
    Relocates env.types move (·.rename move.symbol) (variableSlot env name type)
      (variableSlot env name type) := by
  refine .reads fun state => ?_
  rw [reusableSlot_relocate]
  cases reusableSlot? state name type with
  | none => exact relocates_newSlot name type
  | some slot => exact .done

theorem relocates_assign (target : String) {value value' : Lowering Value}
    (values : Relocates env.types move (·.rename move.symbol) value value') :
    Relocates env.types move id (assign env target value) (assign env target value') := by
  refine values.bind fun v => (relocates_obtainValue v).bind fun obtained => ?_
  refine (relocates_variableSlot target obtained.2.type).bind fun slot => ?_
  refine (relocates_emit (.store obtained.1 slot)).bind fun _ => ?_
  exact relocates_define target (.stable obtained.2.type slot)

/-! ## Loops -/

theorem relocates_loopWhile {test test' : Lowering Operand} {body body' : Lowering Unit}
    (tests : Relocates env.types move (·.rename move.symbol) test test')
    (bodies : Relocates env.types move id body body') :
    Relocates env.types move id (loopWhile test body) (loopWhile test' body') := by
  refine (relocates_newBlock _).bind fun head => (relocates_newBlock _).bind fun inside => ?_
  refine (relocates_newBlock _).bind fun fin => (relocates_br _).bind fun _ => ?_
  refine (relocates_switchTo _).bind fun _ => tests.bind fun flag => ?_
  refine (relocates_terminate (.condBr flag inside fin)).bind fun _ => ?_
  refine (relocates_switchTo _).bind fun _ => bodies.bind fun _ => ?_
  exact (relocates_branchIfOpen _).bind fun _ => relocates_switchTo _

theorem relocates_iteration (source : TypeId) :
    Relocates env.types move id (iteration env source) (iteration env source) := by
  unfold iteration
  split
  · exact .fails
  · exact (relocates_ofExcept _).bind fun _ => .done

theorem relocates_loopFor (target : String) {source source' : Lowering Value}
    {body body' : Lowering Unit}
    (sources : Relocates env.types move (·.rename move.symbol) source source')
    (bodies : Relocates env.types move id body body') :
    Relocates env.types move id (loopFor env target source body)
      (loopFor env target source' body') := by
  refine sources.bind fun v => (relocates_iteration v.type).bind fun (symbol, element) => ?_
  refine (relocates_obtainAddress v).bind fun obtained => ?_
  refine (relocates_variableSlot target element).bind fun slot => ?_
  refine (relocates_valueIr element).bind fun ir => ?_
  refine (relocates_define target (.stable element slot)).bind fun _ => ?_
  refine (relocates_newBlock _).bind fun head => (relocates_newBlock _).bind fun inside => ?_
  refine (relocates_newBlock _).bind fun fin => (relocates_br _).bind fun _ => ?_
  refine (relocates_switchTo _).bind fun _ => relocates_temp.bind fun more => ?_
  refine (relocates_emit (.call (some more) .i1 symbol [obtained.1, ⟨ir.ptr, slot⟩])).bind
    fun _ => ?_
  refine (relocates_terminate (.condBr more inside fin)).bind fun _ => ?_
  refine (relocates_switchTo _).bind fun _ => bodies.bind fun _ => ?_
  refine (relocates_branchIfOpen _).bind fun _ => (relocates_switchTo _).bind fun _ => ?_
  exact relocates_release obtained.2

/-! ## Returns -/

theorem relocates_returnValue (expected : TypeId) (value : Value) :
    Relocates env.types move id (returnValue env expected value)
      (returnValue env expected (value.rename move.symbol)) := by
  unfold returnValue
  refine .branches .rfl relocates_refuse_bind ?_
  refine (relocates_obtainValue value).bind fun obtained => ?_
  refine (relocates_emit (.store obtained.1 (.named resultName))).bind fun _ => ?_
  exact relocates_terminate (.ret none)

theorem relocates_leave (expr : Option Expr) :
    Relocates env.types move id (leave env expr) (leave env expr) := by
  unfold leave
  cases env.outcome with
  | status =>
      cases expr with
      | none => exact relocates_terminate (.ret (some success))
      | some expr =>
          exact (relocates_effect expr).bind fun _ => relocates_terminate (.ret (some success))
  | result expected =>
      cases expr with
      | none =>
          exact .branches .rfl relocates_refuse_bind (relocates_terminate (.ret none))
      | some expr =>
          refine .branches .rfl ?_ ?_
          · exact (relocates_effect expr).bind fun _ => relocates_terminate (.ret none)
          · exact (relocates_value expr).bind fun value => relocates_returnValue expected value

/-! ## Chains of conditions -/

theorem relocates_nextArm (fin : BlockId) (index : Nat) (rest : List Arm) :
    Relocates env.types move id (nextArm fin index rest) (nextArm fin index rest) := by
  match rest with
  | [] => exact .done
  | .mk (some _) _ :: _ => exact relocates_newBlock _
  | .mk none _ :: _ => exact relocates_newBlock _

theorem relocates_lastArm (fin : BlockId) {body body' : Lowering Unit}
    (bodies : Relocates env.types move id body body') :
    Relocates env.types move id (lastArm fin body) (lastArm fin body') :=
  bodies.bind fun _ => (relocates_branchIfOpen _).bind fun _ => relocates_switchTo _

theorem relocates_guardedArm (fin : BlockId) (index : Nat) (rest : List Arm)
    {test test' : Lowering Operand} {body body' : Lowering Unit}
    (tests : Relocates env.types move (·.rename move.symbol) test test')
    (bodies : Relocates env.types move id body body') :
    Relocates env.types move id (guardedArm fin index rest test body)
      (guardedArm fin index rest test' body') := by
  refine tests.bind fun flag => (relocates_newBlock _).bind fun suite => ?_
  refine (relocates_nextArm fin _ rest).bind fun otherwise => ?_
  refine (relocates_terminate (.condBr flag suite otherwise)).bind fun _ => ?_
  refine (relocates_switchTo _).bind fun _ => bodies.bind fun _ => ?_
  exact (relocates_branchIfOpen _).bind fun _ => relocates_switchTo _

/-! ## Statements -/

mutual

/-- Behind other code a statement is lowered in the same way, but for the numbers of literals. -/
theorem relocates_stmt (s : Stmt) : Relocates env.types move id (stmt env s) (stmt env s) := by
  cases s with
  | assign target expr =>
      rw [stmt]
      exact relocates_assign target (relocates_value expr)
  | ifChain chain =>
      cases chain with
      | nil =>
          rw [stmt]
          refine (relocates_newBlock _).bind fun fin => ?_
          exact (relocates_br _).bind fun _ => relocates_switchTo _
      | cons first rest =>
          rw [stmt]
          exact (relocates_newBlock _).bind fun fin => relocates_arms fin 0 (first :: rest)
  | whileLoop test body =>
      rw [stmt]
      exact relocates_loopWhile (relocates_condition (relocates_value test)) (relocates_suite body)
  | forLoop target source body =>
      rw [stmt]
      exact relocates_loopFor target (relocates_value source) (relocates_suite body)
  | ret expr =>
      rw [stmt]
      exact relocates_leave expr
  | effect expr =>
      rw [stmt]
      exact relocates_effect expr

theorem relocates_suite (statements : List Stmt) :
    Relocates env.types move id (suite env statements) (suite env statements) := by
  cases statements with
  | nil =>
      rw [suite]
      exact .done
  | cons first rest =>
      rw [suite]
      refine relocates_isTerminated.bind fun ended => ?_
      cases ended with
      | true => exact .done
      | false => exact (relocates_stmt first).bind fun _ => relocates_suite rest

theorem relocates_arms (fin : BlockId) (index : Nat) (chain : List Arm) :
    Relocates env.types move id (arms env fin index chain) (arms env fin index chain) := by
  match chain with
  | [] =>
      rw [arms]
      exact .done
  | .mk none body :: _ =>
      rw [arms]
      exact relocates_lastArm fin (relocates_suite body)
  | .mk (some test) body :: rest =>
      rw [arms]
      refine (relocates_guardedArm fin index rest (relocates_condition (relocates_value test))
        (relocates_suite body)).bind fun _ => ?_
      exact relocates_arms fin (index + 1) rest

end

end LlvmBackend.Lowering
