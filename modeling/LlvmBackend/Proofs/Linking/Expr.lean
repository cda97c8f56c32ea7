import LlvmBackend.Lowering.Expr
import LlvmBackend.Proofs.Linking.Steps

/-! # Constants in the code of expressions

A literal becomes a constant of the module, and everything else that expressions work with is a
register or comes from a name.
-/

namespace LlvmBackend.Lowering

open Ir

variable {env : Surroundings} {known : String → Prop} {given : Prop} {state : FunctionState}

/-! ## Values -/

theorem links_valueIr (type : TypeId) :
    Links env.types known given (valueIr env type) state fun _ => True := by
  by_cases void : type = Registry.void
  · simp only [valueIr, if_pos void]
    rw [← bind_assoc]
    have refused : Links env.types known given
        (functionName >>= fun name => throw (.voidValue name) : Lowering PUnit) state
        fun _ => True := links_refuse
    exact refused.bind fun _ _ => .done fun _ => trivial
  · simp only [valueIr, if_neg void]
    exact .done fun _ => trivial

theorem links_obtainValue {value : Value} (linked : given → value.Linked known) :
    Links env.types known given (obtainValue env value) state fun result =>
      result.1.operand.Linked known ∧ result.2.Linked known := by
  obtain ⟨type, storage, binding⟩ := value
  refine (links_valueIr type).andThen fun ir _ => ?_
  cases storage with
  | direct operand => exact .done fun h => ⟨linked h, linked h⟩
  | cached address loaded => exact .done fun h => ⟨(linked h).2, linked h⟩
  | addressed address =>
      refine links_temp.bind fun dest _ => ?_
      refine (links_emit _ fun h => Instr.linked_load.mpr ⟨h.2, linked h.1⟩).andThen fun _ _ =>
        .done fun h => ⟨h.2, ?_⟩
      show Storage.Linked known (if binding.owns then _ else _)
      split
      · exact ⟨linked h.1, h.2⟩
      · exact linked h.1

theorem links_operandOf {value : Value} (linked : given → value.Linked known) :
    Links env.types known given (operandOf env value) state fun operand => operand.Linked known :=
  (links_obtainValue linked).bind fun _ _ => .done fun h => h.2.1

theorem links_obtainAddress {value : Value} (linked : given → value.Linked known) :
    Links env.types known given (obtainAddress env value) state fun result =>
      result.1.operand.Linked known ∧ result.2.Linked known := by
  obtain ⟨type, storage, binding⟩ := value
  refine (links_valueIr type).andThen fun ir _ => ?_
  cases storage with
  | addressed address => exact .done fun h => ⟨linked h, linked h⟩
  | cached address loaded => exact .done fun h => ⟨(linked h).1, linked h⟩
  | direct operand =>
      have stored : given → operand.Linked known := linked
      refine links_temp.bind fun slot _ => ?_
      refine (links_emit _ fun h => Instr.linked_alloca.mpr h.2).andThen fun _ _ => ?_
      refine (links_emit _ fun h => Instr.linked_store.mpr ⟨stored h.1, h.2⟩).andThen fun _ _ => ?_
      exact .done fun h => ⟨h.2, h.2⟩

/-! ## Ownership -/

theorem links_guarded {flag : Nat} {instr : Instr} (linked : given → instr.Linked known) :
    Links env.types known given (guarded flag instr) state fun _ => True := by
  refine (links_newBlock _).andThen fun owned _ => (links_newBlock _).andThen fun fin _ => ?_
  refine (links_terminate _ fun _ => by simp).andThen fun _ _ => ?_
  refine (links_switchTo _).andThen fun _ _ => (links_emit _ linked).andThen fun _ _ => ?_
  exact (links_br _).andThen fun _ _ => links_switchTo _

theorem links_release {value : Value} (linked : given → value.Linked known) :
    Links env.types known given (release env value) state fun _ => True := by
  unfold release
  split
  · exact .done fun _ => trivial
  · next call eq =>
      obtain ⟨address, placed, calls⟩ := Option.bind_eq_some_iff.mp eq
      obtain ⟨entry, _, emitted⟩ := Option.bind_eq_some_iff.mp calls
      have called : given → call.Linked known := by
        cases emitted
        intro h
        simpa using (linked h).address placed
      split
      · exact links_emit call called
      · exact links_guarded called
      · exact .done fun _ => trivial
      · exact .done fun _ => trivial

theorem links_mergeBinding (type : TypeId) (first second : Binding × BlockId) :
    Links env.types known given (mergeBinding env type first second) state fun _ => True := by
  unfold mergeBinding
  split
  · exact .done fun _ => trivial
  · simp only []
    split
    · exact .done fun _ => trivial
    · refine links_tempNumber.andThen fun flag _ => ?_
      exact (links_emit _ fun _ => by simp).andThen fun _ _ => .done fun _ => trivial

/-! ## Calls -/

theorem links_passArg {arg : Value} (linked : given → arg.Linked known) :
    Links env.types known given (passArg env arg) state fun result =>
      result.1.operand.Linked known ∧ result.2.Linked known := by
  unfold passArg
  split
  · exact links_obtainValue linked
  · exact links_obtainAddress linked

theorem links_passArgs {args : List Value} (linked : given → ∀ arg ∈ args, arg.Linked known) :
    Links env.types known given (passArgs env args) state fun result =>
      (∀ passed ∈ result.1, passed.operand.Linked known) ∧ ∀ arg ∈ result.2, arg.Linked known := by
  induction args generalizing given state with
  | nil => exact .done fun _ => by simp
  | cons arg args ih =>
      refine (links_passArg fun h => linked h arg List.mem_cons_self).bind fun _ _ => ?_
      refine (ih fun h other mem => linked h.1 other (List.mem_cons_of_mem _ mem)).bind
        fun _ _ => .done ?_
      rintro ⟨⟨_, passed, kept⟩, others, rest⟩
      exact ⟨List.forall_mem_cons.mpr ⟨passed, others⟩, List.forall_mem_cons.mpr ⟨kept, rest⟩⟩

theorem links_releaseAll {args : List Value} (linked : given → ∀ arg ∈ args, arg.Linked known) :
    Links env.types known given (releaseAll env args) state fun _ => True := by
  induction args generalizing state with
  | nil => exact .done fun _ => trivial
  | cons arg args ih =>
      refine (links_release fun h => linked h arg List.mem_cons_self).andThen fun _ _ => ?_
      exact ih fun h other mem => linked h other (List.mem_cons_of_mem _ mem)

theorem links_resultSlot (returns : TypeId) :
    Links env.types known given (resultSlot env returns) state fun result =>
      ∀ placed ∈ result, placed.1.operand.Linked known ∧ placed.2.Linked known := by
  unfold resultSlot
  split
  · exact .done fun _ => by simp
  · refine links_temp.bind fun slot _ => ?_
    refine (links_emit _ fun h => Instr.linked_alloca.mpr h.2).andThen fun _ _ => .done ?_
    rintro ⟨_, linked⟩ _ ⟨⟩
    exact ⟨linked, linked⟩

theorem links_dispatch (callee : Callee) {args : List Value}
    (linked : given → ∀ arg ∈ args, arg.Linked known) :
    Links env.types known given (dispatch env callee args) state fun result =>
      ∀ value ∈ result, value.Linked known := by
  refine (links_ofExcept _).andThen fun target _ => ?_
  refine (links_passArgs linked).bind fun passed _ => ?_
  refine (links_resultSlot target.returns).bind fun result _ => ?_
  refine (links_emit _ ?_).andThen fun _ _ => ?_
  · rintro ⟨⟨_, operands, _⟩, placed⟩
    refine Instr.linked_call.mpr ⟨by simp, List.forall_mem_append.mpr ⟨operands, ?_⟩⟩
    intro slot mem
    obtain ⟨place, there, rfl⟩ := Option.map_eq_some_iff.mp (Option.mem_toList.mp mem)
    exact (placed place there).1
  refine (links_releaseAll fun h => h.1.2.2).andThen fun _ _ => .done ?_
  rintro ⟨_, placed⟩ value mem
  obtain ⟨place, there, rfl⟩ := Option.map_eq_some_iff.mp mem
  exact (placed place there).2

theorem links_coerceToBool {value : Value} (linked : given → value.Linked known) :
    Links env.types known given (coerceToBool env value) state fun flag => flag.Linked known := by
  unfold coerceToBool
  split
  · exact .done linked
  · refine (links_dispatch .boolean fun h => by simpa using linked h).bind fun result _ => ?_
    exact links_required result And.right

theorem links_flag {value : Value} (linked : given → value.Linked known) :
    Links env.types known given (do operandOf env (← coerceToBool env value)) state
      fun flag => flag.Linked known :=
  (links_coerceToBool linked).bind fun _ _ => links_operandOf And.right

theorem links_negate {value : Value} (linked : given → value.Linked known) :
    Links env.types known given (negate env value) state fun result => result.Linked known := by
  refine (links_operandOf linked).bind fun flag _ => links_temp.bind fun dest _ => ?_
  refine (links_emit _ fun h => ?_).andThen fun _ _ => .done fun h => h.2
  simpa using ⟨h.2, h.1.2⟩

theorem links_condition {test : Lowering Value}
    (links : Links env.types known given test state fun value => value.Linked known) :
    Links env.types known given (condition env test) state fun flag => flag.Linked known :=
  links.bind fun _ _ => links_flag And.right

/-! ## Forms with several ways -/

theorem links_checkArgument (entry : MethodEntry) (found : TypeId) :
    Links env.types known given (checkArgument env entry found) state fun _ => True := by
  unfold checkArgument
  split
  · exact .done fun _ => trivial
  · refine (links_ofExcept _).andThen fun expected _ => ?_
    split
    · exact .fails
    · exact .done fun _ => trivial

theorem links_binary (op : BinaryOperator) {left right : Lowering Value}
    (links : Links env.types known given left state fun value => value.Linked known)
    (links' : ∀ later, Links env.types known given right later fun value => value.Linked known) :
    Links env.types known given (binary env op left right) state fun value =>
      value.Linked known := by
  refine links.bind fun l _ => ((links' _).under And.left).bind fun r _ => ?_
  split
  · exact .fails
  · next entry _ =>
      refine (links_checkArgument entry r.type).andThen fun _ _ => ?_
      refine (links_dispatch _ fun h => by simpa using ⟨h.1.2, h.2⟩).bind fun called _ => ?_
      refine (links_required called And.right).bind fun result _ => ?_
      split
      · exact links_negate And.right
      · exact .done And.right

theorem links_joinAddresses (type : TypeId) {first second : Operand × Binding × BlockId}
    (linked : given → first.1.Linked known ∧ second.1.Linked known) :
    Links env.types known given (joinAddresses env type first second) state fun value =>
      value.Linked known := by
  refine (links_valueIr type).andThen fun pointer _ => links_temp.bind fun dest _ => ?_
  refine (links_emit _ fun h => ?_).andThen fun _ _ => ?_
  · simpa using ⟨h.2, linked h.1⟩
  · exact (links_mergeBinding type _ _).andThen fun _ _ => .done fun h => h.2

theorem links_connectAlike {left right : Value} {skip join : BlockId}
    (linked : given → left.Linked known ∧ right.Linked known) :
    Links env.types known given (connectAlike env left right skip join) state fun value =>
      value.Linked known := by
  refine (links_obtainAddress fun h => (linked h).2).bind fun atRight _ => ?_
  refine (links_release fun h => (linked h.1).1).andThen fun _ _ => ?_
  refine links_currentBlock.andThen fun rightEnd _ => (links_br _).andThen fun _ _ => ?_
  refine (links_switchTo _).andThen fun _ _ => ?_
  refine (links_obtainAddress fun h => (linked h.1).1).bind fun atLeft _ => ?_
  refine (links_br _).andThen fun _ _ => (links_switchTo _).andThen fun _ _ => ?_
  exact links_joinAddresses _ fun h => ⟨h.2.1, h.1.2.1⟩

theorem links_connectFlags {left right : Value} {leftFlag : Operand} {skip join : BlockId}
    (linked : given → left.Linked known ∧ right.Linked known)
    (flagged : given → leftFlag.Linked known) :
    Links env.types known given (connectFlags env left right leftFlag skip join) state fun value =>
      value.Linked known := by
  refine (links_coerceToBool fun h => (linked h).2).bind fun truth _ => ?_
  refine (links_operandOf And.right).bind fun rightFlag _ => ?_
  refine links_currentBlock.andThen fun rightEnd _ => (links_br _).andThen fun _ _ => ?_
  refine (links_switchTo _).andThen fun _ _ => (links_br _).andThen fun _ _ => ?_
  refine (links_switchTo _).andThen fun _ _ => links_temp.bind fun dest _ => ?_
  refine (links_emit _ fun h => ?_).andThen fun _ _ => ?_
  · simpa using ⟨h.2, flagged h.1.1.1, h.1.2⟩
  · exact (links_release fun h => (linked h.1.1.1).1).andThen fun _ _ => .done fun h => h.2

theorem links_connect (connective : Connective) {left right : Lowering Value}
    (links : Links env.types known given left state fun value => value.Linked known)
    (links' : ∀ later, Links env.types known given right later fun value => value.Linked known) :
    Links env.types known given (connect env connective left right) state fun value =>
      value.Linked known := by
  have branched : ∀ {flag : Operand} {a b : BlockId}, flag.Linked known →
      (connective.branch flag a b).Linked known := by
    intro flag a b linked
    cases connective <;> exact Terminator.linked_condBr.mpr linked
  refine links.bind fun l _ => ?_
  refine (links_coerceToBool fun h => h.2.borrowed).bind fun truth _ => ?_
  refine (links_operandOf And.right).bind fun flag _ => ?_
  refine (links_newBlock _).andThen fun rightBlock _ => (links_newBlock _).andThen fun skip _ => ?_
  refine (links_newBlock _).andThen fun join _ => ?_
  refine (links_terminate _ fun h => branched h.2).andThen fun _ _ => ?_
  refine (links_switchTo _).andThen fun _ _ => ?_
  refine ((links' _).under fun h => h.1.1.1).bind fun r _ => ?_
  split
  · exact links_connectAlike fun h => ⟨h.1.1.1.2, h.2⟩
  · exact links_connectFlags (fun h => ⟨h.1.1.1.2, h.2⟩) fun h => h.1.2

theorem links_choose {test : Lowering Operand} {onTrue onFalse : Lowering Value}
    (tested : Links env.types known given test state fun flag => flag.Linked known)
    (links : ∀ later, Links env.types known given onTrue later fun value => value.Linked known)
    (links' : ∀ later, Links env.types known given onFalse later fun value => value.Linked known) :
    Links env.types known given (choose env test onTrue onFalse) state fun value =>
      value.Linked known := by
  refine tested.bind fun flag _ => ?_
  refine (links_newBlock _).andThen fun trueBlock _ => (links_newBlock _).andThen fun falseBlock _ => ?_
  refine (links_newBlock _).andThen fun fin _ => ?_
  refine (links_terminate _ fun h => Terminator.linked_condBr.mpr h.2).andThen fun _ _ => ?_
  refine (links_switchTo _).andThen fun _ _ => ((links _).under And.left).bind fun a _ => ?_
  refine (links_obtainAddress And.right).bind fun placeA _ => ?_
  refine links_currentBlock.andThen fun trueEnd _ => (links_br _).andThen fun _ _ => ?_
  refine (links_switchTo _).andThen fun _ _ => ?_
  refine ((links' _).under fun h => h.1.1.1).bind fun b _ => ?_
  split
  · exact .fails_bind
  · refine (links_obtainAddress And.right).bind fun placeB _ => ?_
    refine links_currentBlock.andThen fun falseEnd _ => (links_br _).andThen fun _ _ => ?_
    refine (links_switchTo _).andThen fun _ _ => ?_
    exact links_joinAddresses _ fun h => ⟨h.1.1.2.1, h.2.1⟩

theorem links_element {container position : Lowering Value}
    (links : Links env.types known given container state fun value => value.Linked known)
    (links' : ∀ later, Links env.types known given position later fun value =>
      value.Linked known) :
    Links env.types known given (element env container position) state fun value =>
      value.Linked known := by
  refine links.bind fun c _ => ?_
  split
  · exact .fails
  · next element _ =>
      refine ((links' _).under And.left).bind fun p _ => ?_
      split
      · exact .fails_bind
      refine (links_valueIr element).andThen fun ir _ => ?_
      refine (links_operandOf fun h => h.1.2).bind fun base _ => ?_
      refine (links_obtainValue fun h => h.1.2).bind fun offset _ => links_temp.bind fun dest _ => ?_
      refine (links_emit _ fun h => ?_).andThen fun _ _ => ?_
      · simpa using ⟨h.2, h.1.1.2, h.1.2.1⟩
      · exact (links_release fun h => h.1.2.2).andThen fun _ _ => .done fun h => h.2

theorem links_call {callee : String} {args : Lowering (List Value)}
    (links : ∀ later, Links env.types known given args later fun values =>
      ∀ value ∈ values, value.Linked known) :
    Links env.types known given (call env callee args) state fun result =>
      ∀ value ∈ result, value.Linked known := by
  refine (links_ofExcept _).andThen fun target _ => (links _).bind fun values _ => ?_
  exact links_dispatch target And.right

/-! ## Expressions -/

/-- The value of an expression that is used. -/
theorem links_used {step : Lowering (Option Value)}
    (links : Links env.types known given step state fun result =>
      ∀ value ∈ result, value.Linked known) :
    Links env.types known given (step >>= required) state fun value => value.Linked known :=
  links.bind fun result _ => links_required result And.right

/-- A step whose value is always there. -/
theorem links_some {step : Lowering Value}
    (links : Links env.types known given step state fun value => value.Linked known) :
    Links env.types known given (some <$> step) state fun result =>
      ∀ value ∈ result, value.Linked known := by
  refine links.map ?_
  rintro _ _ linked _ ⟨⟩
  exact linked

mutual

/-- Lowering an expression names known constants only. -/
theorem links_operand? {state : FunctionState} (e : Expr) :
    Links env.types known given (operand? env e) state fun result =>
      ∀ value ∈ result, value.Linked known := by
  cases e with
  | bool value =>
      rw [operand?]
      exact links_some (links_literal _ (Pool.added_bool env.types · value))
  | int value =>
      rw [operand?]
      exact links_some (links_literal _ (Pool.added_int env.types · value))
  | float value =>
      rw [operand?]
      exact links_some (links_literal _ (Pool.added_float env.types · value))
  | string value =>
      rw [operand?]
      exact links_some (links_literal _ (Pool.added_string env.types · value))
  | name name =>
      rw [operand?]
      exact links_some (links_lookup name)
  | binary op left right =>
      rw [operand?]
      exact links_some (links_binary op (links_used (links_operand? left))
        fun _ => links_used (links_operand? right))
  | not operand =>
      rw [operand?]
      refine links_some ((links_used (links_operand? operand)).bind fun value _ => ?_)
      refine (links_coerceToBool And.right).bind fun truth _ => ?_
      exact links_negate And.right
  | and left right =>
      rw [operand?]
      exact links_some (links_connect .and (links_used (links_operand? left))
        fun _ => links_used (links_operand? right))
  | or left right =>
      rw [operand?]
      exact links_some (links_connect .or (links_used (links_operand? left))
        fun _ => links_used (links_operand? right))
  | ternary test onTrue onFalse =>
      rw [operand?]
      exact links_some (links_choose (links_condition (links_used (links_operand? test)))
        (fun _ => links_used (links_operand? onTrue))
        fun _ => links_used (links_operand? onFalse))
  | index container position =>
      rw [operand?]
      exact links_some (links_element (links_used (links_operand? container))
        fun _ => links_used (links_operand? position))
  | call callee args =>
      rw [operand?]
      exact links_call fun _ => links_operands args

theorem links_operands {state : FunctionState} (es : List Expr) :
    Links env.types known given (operands env es) state fun values =>
      ∀ value ∈ values, value.Linked known := by
  cases es with
  | nil =>
      rw [operands]
      exact .done fun _ => by simp
  | cons first rest =>
      rw [operands]
      refine (links_used (links_operand? first)).bind fun value _ => ?_
      refine ((links_operands rest).under And.left).bind fun values _ => .done ?_
      rintro ⟨⟨_, linked⟩, others⟩
      exact List.forall_mem_cons.mpr ⟨linked, others⟩

end

theorem links_value (e : Expr) :
    Links env.types known given (value env e) state fun value => value.Linked known :=
  links_used (links_operand? e)

theorem links_effect (e : Expr) :
    Links env.types known given (effect env e) state fun _ => True :=
  (links_operand? e).map fun _ _ _ => trivial

end LlvmBackend.Lowering
