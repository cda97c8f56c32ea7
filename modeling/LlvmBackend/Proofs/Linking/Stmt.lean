import LlvmBackend.Lowering.Stmt
import LlvmBackend.Proofs.Linking.Expr

/-! # Constants in the code of statements

Statements store values in slots, test flags and leave the function. The only constants that they
name are those of their expressions.
-/

namespace LlvmBackend.Lowering

open Ir

variable {env : Surroundings} {known : String → Prop} {given : Prop} {state : FunctionState}

/-! ## Variables -/

theorem links_takeSlot (name : String) {type : IrType} :
    Links env.types known given (modifyGet fun state =>
      let (storage, supply) := state.supply.uniqueName name
      let slot := Operand.named storage
      (slot, { state with
        supply, slots := slot :: state.slots, builder := state.builder.hoist (.alloca slot type) }) :
        Lowering Operand) state fun slot => slot.Linked known := by
  rintro _ _ ⟨⟩
  refine ⟨List.Subset.refl _, fun _ linked _ => ⟨⟨linked.instrs, linked.ends, ?_, linked.names,
    linked.pool⟩, trivial⟩⟩
  intro slot mem
  rcases List.mem_append.mp mem with old | new
  · exact linked.slots slot old
  · rw [List.mem_singleton.mp new]
    exact Instr.linked_alloca.mpr trivial

theorem links_newSlot (name : String) (type : TypeId) :
    Links env.types known given (newSlot env name type) state fun slot => slot.Linked known := by
  refine (links_valueIr type).andThen fun ir _ => (links_takeSlot name).bind fun slot _ => ?_
  exact links_functionName.andThen fun _ _ => (links_note _).andThen fun _ _ => .done And.right

theorem linked_reusableSlot (linked : state.Linked env.types known) {name : String} {type : TypeId}
    {slot : Operand} (found : reusableSlot? state name type = some slot) : slot.Linked known := by
  obtain ⟨value, bound, found⟩ := Option.bind_eq_some_iff.mp found
  obtain ⟨place, placed, found⟩ := Option.bind_eq_some_iff.mp found
  obtain ⟨_, _, found⟩ := Option.bind_eq_some_iff.mp found
  cases found
  exact (linked.names name value (Scopes.lookup_of_lookupLocal bound)).address placed

theorem links_variableSlot (name : String) (type : TypeId) :
    Links env.types known given (variableSlot env name type) state fun slot =>
      slot.Linked known := by
  intro slot later result
  cases found : reusableSlot? state name type with
  | none =>
      simp only [variableSlot, get_bind, found] at result
      exact links_newSlot name type slot later result
  | some there =>
      simp only [variableSlot, get_bind, found] at result
      cases result
      exact ⟨List.Subset.refl _, fun _ linked _ => ⟨linked, linked_reusableSlot linked found⟩⟩

theorem links_assign (target : String) {value : Lowering Value}
    (links : Links env.types known given value state fun value => value.Linked known) :
    Links env.types known given (assign env target value) state fun _ => True := by
  refine links.bind fun v _ => (links_obtainValue And.right).bind fun obtained _ => ?_
  refine (links_variableSlot target _).bind fun slot _ => ?_
  refine (links_emit _ fun h => Instr.linked_store.mpr ⟨h.1.2.1, h.2⟩).andThen fun _ _ => ?_
  exact links_define _ _ And.right

/-! ## Loops -/

theorem links_loopWhile {test : Lowering Operand} {body : Lowering Unit}
    (tested : ∀ later, Links env.types known given test later fun flag => flag.Linked known)
    (links : ∀ later, Links env.types known given body later fun _ => True) :
    Links env.types known given (loopWhile test body) state fun _ => True := by
  refine (links_newBlock _).andThen fun head _ => (links_newBlock _).andThen fun bodyBlock _ => ?_
  refine (links_newBlock _).andThen fun fin _ => (links_br _).andThen fun _ _ => ?_
  refine (links_switchTo _).andThen fun _ _ => (tested _).bind fun flag _ => ?_
  refine (links_terminate _ fun h => Terminator.linked_condBr.mpr h.2).andThen fun _ _ => ?_
  refine (links_switchTo _).andThen fun _ _ => ((links _).under And.left).andThen fun _ _ => ?_
  exact (links_branchIfOpen _).andThen fun _ _ => links_switchTo _

theorem links_iteration (source : TypeId) :
    Links env.types known given (iteration env source) state fun _ => True := by
  unfold iteration
  split
  · exact .fails
  · exact (links_ofExcept _).andThen fun _ _ => .done fun _ => trivial

theorem links_loopFor (target : String) {source : Lowering Value} {body : Lowering Unit}
    (sourced : Links env.types known given source state fun value => value.Linked known)
    (links : ∀ later, Links env.types known given body later fun _ => True) :
    Links env.types known given (loopFor env target source body) state fun _ => True := by
  refine sourced.bind fun v _ => (links_iteration v.type).andThen fun iteration _ => ?_
  refine (links_obtainAddress And.right).bind fun iterator _ => ?_
  refine (links_variableSlot target iteration.2).bind fun slot _ => ?_
  refine (links_valueIr iteration.2).andThen fun element _ => ?_
  refine (links_define _ _ And.right).andThen fun _ _ => ?_
  refine (links_newBlock _).andThen fun head _ => (links_newBlock _).andThen fun bodyBlock _ => ?_
  refine (links_newBlock _).andThen fun fin _ => (links_br _).andThen fun _ _ => ?_
  refine (links_switchTo _).andThen fun _ _ => links_temp.bind fun more _ => ?_
  refine (links_emit _ fun h => ?_).andThen fun _ _ => ?_
  · simpa using ⟨h.2, h.1.1.2.1, h.1.2⟩
  refine (links_terminate _ fun h => Terminator.linked_condBr.mpr h.2).andThen fun _ _ => ?_
  refine (links_switchTo _).andThen fun _ _ => ?_
  refine ((links _).under fun h => h.1.1.1.1).andThen fun _ _ => ?_
  refine (links_branchIfOpen _).andThen fun _ _ => (links_switchTo _).andThen fun _ _ => ?_
  exact links_release fun h => h.1.1.2.2

/-! ## Returns -/

theorem links_returnValue (expected : TypeId) {value : Value}
    (linked : given → value.Linked known) :
    Links env.types known given (returnValue env expected value) state fun _ => True := by
  unfold returnValue
  split
  · exact links_refuse_bind
  · refine (links_obtainValue linked).bind fun obtained _ => ?_
    refine (links_emit _ fun h => Instr.linked_store.mpr ⟨h.2.1, Operand.linked_named _⟩).andThen fun _ _ => ?_
    exact links_terminate _ fun _ => by simp

theorem links_leave (expr : Option Expr) :
    Links env.types known given (leave env expr) state fun _ => True := by
  have status : ∀ later, Links env.types known given (terminate (.ret (some success))) later
      fun _ => True := fun _ => links_terminate _ fun _ => by simp [success]
  have nothing : ∀ later, Links env.types known given (terminate (.ret none)) later
      fun _ => True := fun _ => links_terminate _ fun _ => by simp
  unfold leave
  cases env.outcome with
  | status =>
      cases expr with
      | none => exact status _
      | some expr => exact (links_effect expr).andThen fun _ _ => status _
  | result expected =>
      cases expr with
      | none =>
          by_cases valued : expected ≠ Registry.void
          · simp only [if_pos valued]
            exact links_refuse_bind
          · simp only [if_neg valued]
            exact nothing _
      | some expr =>
          by_cases void : expected = Registry.void
          · simp only [if_pos void]
            exact (links_effect expr).andThen fun _ _ => nothing _
          · simp only [if_neg void]
            exact (links_value expr).bind fun value _ => links_returnValue expected And.right

/-! ## Chains of conditions -/

theorem links_nextArm (fin : BlockId) (index : Nat) (rest : List Arm) :
    Links env.types known given (nextArm fin index rest) state fun _ => True := by
  match rest with
  | [] => exact .done fun _ => trivial
  | .mk (some _) _ :: _ => exact links_newBlock _
  | .mk none _ :: _ => exact links_newBlock _

theorem links_lastArm (fin : BlockId) {body : Lowering Unit}
    (links : Links env.types known given body state fun _ => True) :
    Links env.types known given (lastArm fin body) state fun _ => True :=
  links.andThen fun _ _ => (links_branchIfOpen _).andThen fun _ _ => links_switchTo _

theorem links_guardedArm (fin : BlockId) (index : Nat) (rest : List Arm) {test : Lowering Operand}
    {body : Lowering Unit}
    (tested : Links env.types known given test state fun flag => flag.Linked known)
    (links : ∀ later, Links env.types known given body later fun _ => True) :
    Links env.types known given (guardedArm fin index rest test body) state fun _ => True := by
  refine tested.bind fun flag _ => (links_newBlock _).andThen fun suite _ => ?_
  refine (links_nextArm fin _ rest).andThen fun otherwise _ => ?_
  refine (links_terminate _ fun h => Terminator.linked_condBr.mpr h.2).andThen fun _ _ => ?_
  refine (links_switchTo _).andThen fun _ _ => ((links _).under And.left).andThen fun _ _ => ?_
  exact (links_branchIfOpen _).andThen fun _ _ => links_switchTo _

mutual

/-- Lowering a statement names known constants only. -/
theorem links_stmt {state : FunctionState} (s : Stmt) :
    Links env.types known given (stmt env s) state fun _ => True := by
  cases s with
  | assign target expr =>
      rw [stmt]
      exact links_assign target (links_value expr)
  | ifChain chain =>
      cases chain with
      | nil =>
          rw [stmt]
          refine (links_newBlock _).andThen fun fin _ => ?_
          exact (links_br _).andThen fun _ _ => links_switchTo _
      | cons first rest =>
          rw [stmt]
          exact (links_newBlock _).andThen fun fin _ => links_arms fin 0 (first :: rest)
  | whileLoop test body =>
      rw [stmt]
      exact links_loopWhile (fun _ => links_condition (links_value test)) fun _ => links_suite body
  | forLoop target source body =>
      rw [stmt]
      exact links_loopFor target (links_value source) fun _ => links_suite body
  | ret expr =>
      rw [stmt]
      exact links_leave expr
  | effect expr =>
      rw [stmt]
      exact links_effect expr

theorem links_suite {state : FunctionState} (statements : List Stmt) :
    Links env.types known given (suite env statements) state fun _ => True := by
  cases statements with
  | nil =>
      rw [suite]
      exact .done fun _ => trivial
  | cons first rest =>
      rw [suite]
      refine links_isTerminated.andThen fun ended _ => ?_
      cases ended with
      | true => exact .done fun _ => trivial
      | false => exact (links_stmt first).andThen fun _ _ => links_suite rest

theorem links_arms {state : FunctionState} (fin : BlockId) (index : Nat) (chain : List Arm) :
    Links env.types known given (arms env fin index chain) state fun _ => True := by
  match chain with
  | [] =>
      rw [arms]
      exact .done fun _ => trivial
  | .mk none body :: _ =>
      rw [arms]
      exact links_lastArm fin (links_suite body)
  | .mk (some test) body :: rest =>
      rw [arms]
      refine (links_guardedArm fin index rest (links_condition (links_value test))
        fun _ => links_suite body).andThen fun _ _ => ?_
      exact links_arms fin (index + 1) rest

end

end LlvmBackend.Lowering
