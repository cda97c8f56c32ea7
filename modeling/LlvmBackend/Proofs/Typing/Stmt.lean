import LlvmBackend.Lowering.Stmt
import LlvmBackend.Proofs.Typing.Expr

/-! # Types of what statements use

Statements bind names to slots of the right types, test flags, and leave the function with what its
outcome asks for.
-/

namespace LlvmBackend.Lowering

open Ir FunctionState

variable {env : Surroundings} {has : Operand → IrType → Prop} {given : Prop}
  {state : FunctionState}

/-! ## Variables -/

/-- The new slot of a variable is defined by the storage at the top of the function. -/
theorem typed_takeSlot (name : String) {type : IrType} :
    Typed env has given (modifyGet fun state =>
      let (storage, supply) := state.supply.uniqueName name
      let slot := Operand.named storage
      (slot, { state with
        supply, slots := slot :: state.slots, builder := state.builder.hoist (.alloca slot type) }) :
        Lowering Operand) state fun slot _ => TypedOperand.Fits has ⟨type.ptr, slot⟩ := by
  rintro _ _ ⟨⟩
  refine ⟨⟨?_, List.Subset.refl _, Nat.le_refl _, rfl⟩, fun covered fits _ => ⟨⟨fits.current,
    fits.instrs, fits.ends, ?_, fits.names, fits.pool⟩, ?_⟩⟩
  · intro defined mem
    refine List.mem_append.mpr ((List.mem_append.mp mem).imp_left fun mem => ?_)
    refine List.filterMap_subset _ (List.append_subset.mpr
      ⟨List.subset_append_left _ _, fun slot mem => ?_⟩) mem
    exact List.mem_append_right _ (List.mem_append_left _ mem)
  · intro slot mem
    rcases List.mem_append.mp mem with old | new
    · exact fits.slots slot old
    · rw [List.mem_singleton.mp new]
      exact ⟨by simp [Instr.uses], by simp [Instr.dest, Operand.isRegister]⟩
  · refine covered ⟨type.ptr, _⟩ (List.mem_append_left _ (List.mem_filterMap.mpr
      ⟨.alloca _ type, List.mem_append_right _ (List.mem_append_right _ ?_), rfl⟩))
    exact List.mem_singleton_self _

theorem typed_newSlot (name : String) (type : TypeId) :
    Typed env has given (newSlot env name type) state fun slot _ =>
      TypedOperand.Fits has ⟨.ptr ⟨env.types.ir type⟩, slot⟩ := by
  refine (typed_valueIr type).bind fun ir _ _ => (typed_takeSlot name).bind fun slot _ _ => ?_
  refine typed_functionName.andThen fun _ _ _ => (typed_note _).andThen fun _ _ _ => .done ?_
  rintro ⟨⟨_, rfl⟩, fits⟩
  exact fits

/-- A slot that a name already has holds values of the type it was found for. -/
theorem fits_reusableSlot (fits : state.Fits env has) {name : String} {type : TypeId}
    {slot : Operand} (found : reusableSlot? state name type = some slot) :
    TypedOperand.Fits has ⟨.ptr ⟨env.types.ir type⟩, slot⟩ := by
  obtain ⟨known, bound, found⟩ := Option.bind_eq_some_iff.mp found
  obtain ⟨place, placed, found⟩ := Option.bind_eq_some_iff.mp found
  obtain ⟨_, guarded, found⟩ := Option.bind_eq_some_iff.mp found
  cases found
  have same : known.type = type := by
    by_contra differ
    simp [guard, differ] at guarded
  have there := (fits.names name known (Scopes.lookup_of_lookupLocal bound)).storage.address placed
  rwa [same] at there

theorem typed_variableSlot (name : String) (type : TypeId) :
    Typed env has given (variableSlot env name type) state fun slot _ =>
      TypedOperand.Fits has ⟨.ptr ⟨env.types.ir type⟩, slot⟩ := by
  intro slot later result
  cases found : reusableSlot? state name type with
  | none =>
      simp only [variableSlot, get_bind, found] at result
      exact typed_newSlot name type slot later result
  | some known =>
      simp only [variableSlot, get_bind, found] at result
      cases result
      exact ⟨.refl _, fun _ fits _ => ⟨fits, fits_reusableSlot fits found⟩⟩

theorem typed_assign (target : String) {value : Lowering Value}
    (typed : Typed env has given value state fun value _ => value.Fits env.types has) :
    Typed env has given (assign env target value) state fun _ _ => True := by
  refine typed.bind fun v _ _ => (typed_obtainValue And.right).bind fun obtained _ _ => ?_
  refine (typed_variableSlot target _).bind fun slot _ _ => ?_
  refine (typed_emit _ ?_).bind fun _ _ _ => typed_define _ _ ?_
  · rintro ⟨⟨_, obtained⟩, placed⟩
    rw [obtained.sameType] at placed
    refine ⟨?_, by simp [Instr.dest]⟩
    simpa [Instr.uses, obtained.type] using ⟨obtained.operand, placed⟩
  · rintro ⟨⟨_, placed⟩, _⟩
    exact ⟨placed, rfl⟩

/-! ## Loops -/

theorem typed_loopWhile {test : Lowering Operand} {body : Lowering Unit}
    (tested : ∀ later, Typed env has given test later fun flag _ =>
      TypedOperand.Fits has ⟨.i1, flag⟩)
    (typed : ∀ later, Typed env has given body later fun _ _ => True) :
    Typed env has given (loopWhile test body) state fun _ _ => True := by
  refine (typed_newBlock _).bind fun head _ _ => ?_
  refine (typed_newBlock _).bind fun bodyBlock _ grows₁ => ?_
  refine (typed_newBlock _).bind fun fin _ grows₂ => ?_
  refine (typed_br _).andThen fun _ _ grows₃ => ?_
  refine (typed_switchTo _ fun h => ?_).andThen fun _ _ grows₄ => ?_
  · exact Nat.lt_of_lt_of_le h.1.1.2 ((grows₁.trans grows₂).trans grows₃).size
  refine ((tested _).under fun h => h.1.1.1).bind fun flag _ grows₅ => ?_
  refine (typed_terminate _ fun h => fits_condBr h.2 _ _ _).andThen fun _ _ grows₆ => ?_
  have grows := ((grows₃.trans grows₄).trans grows₅).trans grows₆
  refine (typed_switchTo _ fun h => ?_).andThen fun _ _ grows₇ => ?_
  · exact Nat.lt_of_lt_of_le h.1.1.2 (grows₂.trans grows).size
  refine ((typed _).under fun h => h.1.1.1.1).andThen fun _ _ grows₈ => ?_
  refine (typed_branchIfOpen _).andThen fun _ _ grows₉ => typed_switchTo _ fun h => ?_
  exact Nat.lt_of_lt_of_le h.1.2 (((grows.trans grows₇).trans grows₈).trans grows₉).size

theorem typed_iteration (source : TypeId) :
    Typed env has given (iteration env source) state fun _ _ => True := by
  unfold iteration
  split
  · exact .fails
  · exact (typed_ofExcept _).bind fun _ _ _ => .done fun _ => trivial

theorem typed_loopFor (target : String) {source : Lowering Value} {body : Lowering Unit}
    (sourced : Typed env has given source state fun value _ => value.Fits env.types has)
    (typed : ∀ later, Typed env has given body later fun _ _ => True) :
    Typed env has given (loopFor env target source body) state fun _ _ => True := by
  refine sourced.bind fun v _ _ => ?_
  refine (typed_iteration v.type).andThen fun iteration _ _ => ?_
  refine (typed_obtainAddress And.right).bind fun iterator _ _ => ?_
  refine (typed_variableSlot target iteration.2).bind fun slot _ _ => ?_
  refine (typed_valueIr iteration.2).bind fun element _ _ => ?_
  refine (typed_define _ _ ?_).andThen fun _ _ _ => ?_
  · rintro ⟨⟨_, placed⟩, _⟩
    exact ⟨placed, rfl⟩
  refine (typed_newBlock _).bind fun head _ _ => ?_
  refine (typed_newBlock _).bind fun bodyBlock _ grows₁ => ?_
  refine (typed_newBlock _).bind fun fin _ grows₂ => ?_
  refine (typed_br _).andThen fun _ _ grows₃ => ?_
  refine (typed_switchTo _ fun h => ?_).andThen fun _ _ grows₄ => ?_
  · exact Nat.lt_of_lt_of_le h.1.1.2 ((grows₁.trans grows₂).trans grows₃).size
  refine typed_temp.bind fun more _ grows₅ => ?_
  refine (typed_emit _ ?_).bind fun _ _ grows₆ => ?_
  · rintro ⟨⟨⟨⟨⟨⟨⟨_, obtained⟩, placed⟩, rfl⟩, _⟩, _⟩, _⟩, isRegister⟩
    refine ⟨?_, by simpa [Instr.dest] using isRegister⟩
    simpa [Instr.uses] using ⟨obtained.operand, placed⟩
  refine (typed_terminate _ ?_).andThen fun _ _ grows₇ => ?_
  · rintro ⟨⟨_, isRegister⟩, defined⟩
    exact fits_condBr (.of_has isRegister (defined ⟨.i1, more⟩ rfl)) _ _ _
  have grows := (((grows₃.trans grows₄).trans grows₅).trans grows₆).trans grows₇
  refine (typed_switchTo _ fun h => ?_).andThen fun _ _ grows₈ => ?_
  · exact Nat.lt_of_lt_of_le h.1.1.1.2 (grows₂.trans grows).size
  refine ((typed _).under fun h => h.1.1.1.1.1.1.1.1.1).andThen fun _ _ grows₉ => ?_
  refine (typed_branchIfOpen _).andThen fun _ _ grows₁₀ => ?_
  refine (typed_switchTo _ fun h => ?_).andThen fun _ _ _ => ?_
  · exact Nat.lt_of_lt_of_le h.1.1.2 (((grows.trans grows₈).trans grows₉).trans grows₁₀).size
  exact typed_release fun h => h.1.1.1.1.1.1.1.2.fits

/-! ## Returns -/

/-- The parameter for the result of a function points to a place for it. -/
def ResultTyped (env : Surroundings) (has : Operand → IrType → Prop) : Prop :=
  ∀ type, env.outcome = .result type → type ≠ Registry.void →
    TypedOperand.Fits has ⟨.ptr ⟨env.types.ir type⟩, .named resultName⟩

theorem fits_ret {value : Option TypedOperand} (fits : ∀ typed ∈ value, typed.Fits has) :
    (Terminator.ret value).Fits has (value.map TypedOperand.type) := by
  refine ⟨?_, by simp [Terminator.returned?]⟩
  simpa [Terminator.uses] using fits

theorem typed_retNothing {type : TypeId} (outcome : env.outcome = .result type) :
    Typed env has given (terminate (.ret none)) state fun _ _ => True := by
  refine typed_terminate _ fun _ => ?_
  rw [outcome]
  exact fits_ret (by simp)

theorem typed_retStatus (outcome : env.outcome = .status) :
    Typed env has given (terminate (.ret (some success))) state fun _ _ => True := by
  refine typed_terminate _ fun _ => ?_
  rw [outcome]
  exact fits_ret (by simp [success, TypedOperand.Fits])

theorem typed_returnValue (result : ResultTyped env has) {expected : TypeId}
    (outcome : env.outcome = .result expected) (valued : expected ≠ Registry.void) {value : Value}
    (fits : given → value.Fits env.types has) :
    Typed env has given (returnValue env expected value) state fun _ _ => True := by
  unfold returnValue
  by_cases differ : value.type ≠ expected
  · simp only [if_pos differ]
    exact typed_refuse_bind
  · simp only [if_neg differ]
    refine (typed_obtainValue fits).bind fun obtained _ _ => ?_
    refine (typed_emit _ ?_).bind fun _ _ _ => (typed_retNothing outcome).mono id fun _ _ _ => id
    rintro ⟨_, obtained⟩
    have place := result expected outcome valued
    rw [← not_ne_iff.mp differ] at place
    refine ⟨?_, by simp [Instr.dest]⟩
    simpa [Instr.uses, obtained.type] using ⟨obtained.operand, place⟩

theorem typed_leave (faithful : env.Faithful) (result : ResultTyped env has)
    (expr : Option Expr) :
    Typed env has given (leave env expr) state fun _ _ => True := by
  unfold leave
  cases outcome : env.outcome with
  | status =>
      cases expr with
      | none => exact typed_retStatus outcome
      | some expr => exact (typed_effect faithful expr).andThen fun _ _ _ => typed_retStatus outcome
  | result expected =>
      cases expr with
      | none =>
          by_cases valued : expected ≠ Registry.void
          · simp only [if_pos valued]
            exact typed_refuse_bind
          · simp only [if_neg valued]
            exact typed_retNothing outcome
      | some expr =>
          by_cases void : expected = Registry.void
          · simp only [if_pos void]
            exact (typed_effect faithful expr).andThen fun _ _ _ => typed_retNothing outcome
          · simp only [if_neg void]
            exact (typed_value faithful expr).bind fun value _ _ =>
              typed_returnValue result outcome void And.right

/-! ## Chains of conditions -/

theorem typed_nextArm (fin : BlockId) (index : Nat) (rest : List Arm)
    (placed : given → fin < state.builder.blocks.length) :
    Typed env has given (nextArm fin index rest) state fun otherwise later =>
      otherwise < later.builder.blocks.length := by
  match rest with
  | [] => exact .done placed
  | .mk (some _) _ :: _ => exact typed_newBlock _
  | .mk none _ :: _ => exact typed_newBlock _

theorem typed_lastArm (fin : BlockId) {body : Lowering Unit}
    (typed : Typed env has given body state fun _ _ => True)
    (placed : given → fin < state.builder.blocks.length) :
    Typed env has given (lastArm fin body) state fun _ _ => True := by
  refine typed.andThen fun _ _ grows₁ => (typed_branchIfOpen _).andThen fun _ _ grows₂ => ?_
  exact typed_switchTo _ fun h => Nat.lt_of_lt_of_le (placed h) (grows₁.trans grows₂).size

theorem typed_guardedArm (fin : BlockId) (index : Nat) (rest : List Arm)
    {test : Lowering Operand} {body : Lowering Unit}
    (tested : Typed env has given test state fun flag _ => TypedOperand.Fits has ⟨.i1, flag⟩)
    (typed : ∀ later, Typed env has given body later fun _ _ => True)
    (placed : given → fin < state.builder.blocks.length) :
    Typed env has given (guardedArm fin index rest test body) state fun _ _ => True := by
  refine tested.bind fun flag _ grows₁ => ?_
  refine (typed_newBlock _).bind fun suite _ grows₂ => ?_
  refine (typed_nextArm fin _ rest fun h => ?_).bind fun otherwise _ grows₃ => ?_
  · exact Nat.lt_of_lt_of_le (placed h.1.1) (grows₁.trans grows₂).size
  refine (typed_terminate _ fun h => fits_condBr h.1.1.2 _ _ _).andThen fun _ _ grows₄ => ?_
  refine (typed_switchTo _ fun h => ?_).andThen fun _ _ grows₅ => ?_
  · exact Nat.lt_of_lt_of_le h.1.2 (grows₃.trans grows₄).size
  refine ((typed _).under fun h => h.1.1.1).andThen fun _ _ grows₆ => ?_
  refine (typed_branchIfOpen _).andThen fun _ _ grows₇ => typed_switchTo _ fun h => ?_
  exact Nat.lt_of_lt_of_le h.2 (((grows₄.trans grows₅).trans grows₆).trans grows₇).size

mutual

/-- Lowering a statement uses operands at their types. -/
theorem typed_stmt {given : Prop} (faithful : env.Faithful) (result : ResultTyped env has)
    {state : FunctionState} (s : Stmt) : Typed env has given (stmt env s) state fun _ _ => True := by
  cases s with
  | assign target expr =>
      rw [stmt]
      exact typed_assign target (typed_value faithful expr)
  | ifChain chain =>
      cases chain with
      | nil =>
          rw [stmt]
          refine (typed_newBlock _).bind fun fin _ _ => ?_
          refine (typed_br _).andThen fun _ _ grows => typed_switchTo _ fun h => ?_
          exact Nat.lt_of_lt_of_le h.2 grows.size
      | cons first rest =>
          rw [stmt]
          refine (typed_newBlock _).bind fun fin _ _ => ?_
          exact typed_arms faithful result fin 0 (first :: rest) And.right
  | whileLoop test body =>
      rw [stmt]
      exact typed_loopWhile (fun _ => typed_condition faithful (typed_value faithful test))
        fun _ => typed_suite faithful result body
  | forLoop target source body =>
      rw [stmt]
      exact typed_loopFor target (typed_value faithful source)
        fun _ => typed_suite faithful result body
  | ret expr =>
      rw [stmt]
      exact typed_leave faithful result expr
  | effect expr =>
      rw [stmt]
      exact typed_effect faithful expr

theorem typed_suite {given : Prop} (faithful : env.Faithful) (result : ResultTyped env has)
    {state : FunctionState} (statements : List Stmt) :
    Typed env has given (suite env statements) state fun _ _ => True := by
  cases statements with
  | nil =>
      rw [suite]
      exact .done fun _ => trivial
  | cons first rest =>
      rw [suite]
      refine typed_isTerminated.andThen fun ended _ _ => ?_
      cases ended with
      | true => exact .done fun _ => trivial
      | false =>
          exact (typed_stmt faithful result first).andThen fun _ _ _ =>
            typed_suite faithful result rest

theorem typed_arms {given : Prop} (faithful : env.Faithful) (result : ResultTyped env has)
    {state : FunctionState} (fin : BlockId) (index : Nat) (chain : List Arm)
    (placed : given → fin < state.builder.blocks.length) :
    Typed env has given (arms env fin index chain) state fun _ _ => True := by
  match chain with
  | [] =>
      rw [arms]
      exact .done fun _ => trivial
  | .mk none body :: _ =>
      rw [arms]
      exact typed_lastArm fin (typed_suite faithful result body) placed
  | .mk (some test) body :: rest =>
      rw [arms]
      refine (typed_guardedArm fin index rest
        (typed_condition faithful (typed_value faithful test))
        (fun _ => typed_suite faithful result body) placed).andThen fun _ _ grows => ?_
      exact typed_arms faithful result fin (index + 1) rest fun h =>
        Nat.lt_of_lt_of_le (placed h) grows.size

end

end LlvmBackend.Lowering
