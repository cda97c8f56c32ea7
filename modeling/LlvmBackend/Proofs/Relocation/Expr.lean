import LlvmBackend.Lowering.Expr
import LlvmBackend.Proofs.Relocation.Steps

/-! # Expressions behind other code

What is done with values is the same for values with other symbols, and so is each form of
expression, if it is for its parts.
-/

namespace LlvmBackend.Lowering

open Ir

variable {env : Surroundings} {move : Relocation}

/-! ## Values -/

theorem relocates_valueIr (type : TypeId) :
    Relocates env.types move id (valueIr env type) (valueIr env type) := by
  unfold valueIr
  refine .branches .rfl ?_ .done
  exact relocates_functionName.bind fun _ => .fails_bind

theorem relocates_obtainValue (value : Value) :
    Relocates env.types move move.both (obtainValue env value)
      (obtainValue env (value.rename move.symbol)) := by
  obtain ⟨type, storage, binding⟩ := value
  refine (relocates_valueIr type).bind fun ir => ?_
  cases storage with
  | direct operand => exact .done
  | cached address loaded => exact .done
  | addressed address =>
      refine relocates_temp.bind fun dest => ?_
      refine (relocates_emit (.load dest ir address)).bind fun _ => ?_
      cases owns : binding.owns with
      | true =>
          simp only [Value.rename, owns, if_true]
          exact .done
      | false =>
          simp only [Value.rename, owns, Bool.false_eq_true, if_false]
          exact .done

theorem relocates_operandOf (value : Value) :
    Relocates env.types move (·.rename move.symbol) (operandOf env value)
      (operandOf env (value.rename move.symbol)) :=
  (relocates_obtainValue value).bind fun _ => .done

theorem relocates_obtainAddress (value : Value) :
    Relocates env.types move move.both (obtainAddress env value)
      (obtainAddress env (value.rename move.symbol)) := by
  obtain ⟨type, storage, binding⟩ := value
  refine (relocates_valueIr type).bind fun ir => ?_
  cases storage with
  | addressed address => exact .done
  | cached address loaded => exact .done
  | direct operand =>
      refine relocates_temp.bind fun slot => ?_
      refine (relocates_emit (.alloca slot ir)).bind fun _ => ?_
      exact (relocates_emit (.store ⟨ir, operand⟩ slot)).bind fun _ => .done

/-! ## Ownership -/

theorem relocates_guarded (flag : Nat) (instr : Instr) :
    Relocates env.types move id (guarded flag instr)
      (guarded flag (instr.rename move.symbol)) := by
  refine (relocates_newBlock _).bind fun owned => (relocates_newBlock _).bind fun fin => ?_
  refine (relocates_terminate (.condBr (.temp flag) owned fin)).bind fun _ => ?_
  refine (relocates_switchTo _).bind fun _ => (relocates_emit instr).bind fun _ => ?_
  exact (relocates_br _).bind fun _ => relocates_switchTo _

theorem teardownCall_rename (type : TypeId) (address : Operand) (change : String → String) :
    teardownCall env type (address.rename change) =
      (teardownCall env type address).map (·.rename change) := by
  simp only [teardownCall, Option.bind_eq_bind]
  cases env.types.method type teardown <;> rfl

theorem relocates_release (value : Value) :
    Relocates env.types move id (release env value) (release env (value.rename move.symbol)) := by
  have call : (value.rename move.symbol).address.bind
        (teardownCall env (value.rename move.symbol).type) =
      (value.address.bind (teardownCall env value.type)).map (·.rename move.symbol) := by
    simp [Option.map_bind, Option.bind_map, teardownCall_rename]
  unfold release
  rw [call]
  cases value.address.bind (teardownCall env value.type) with
  | none => exact .done
  | some call =>
      simp only [Option.map_some, Value.rename_binding]
      cases value.binding with
      | temporary => exact relocates_emit call
      | conditional flag => exact relocates_guarded flag call
      | stable => exact .done
      | constant => exact .done

theorem relocates_mergeBinding (type : TypeId) (first second : Binding × BlockId) :
    Relocates env.types move id (mergeBinding env type first second)
      (mergeBinding env type first second) := by
  unfold mergeBinding
  refine .branches .rfl .done (.branches .rfl .done (relocates_tempNumber.bind fun flag => ?_))
  have merged : Relocates env.types move id _ _ :=
    relocates_emit (.phi (.temp flag) .i1 [(first.1.flag, first.2), (second.1.flag, second.2)])
  simp only [Instr.rename, List.map_cons, List.map_nil, Binding.rename_flag] at merged
  exact merged.bind fun _ => .done

/-! ## Calls -/

theorem relocates_passArg (arg : Value) :
    Relocates env.types move move.both (passArg env arg)
      (passArg env (arg.rename move.symbol)) := by
  unfold passArg
  exact .branches .rfl (relocates_obtainValue arg) (relocates_obtainAddress arg)

theorem relocates_passArgs (args : List Value) :
    Relocates env.types move
      (Prod.map (List.map (·.rename move.symbol)) (List.map (·.rename move.symbol)))
      (passArgs env args) (passArgs env (args.map (·.rename move.symbol))) := by
  induction args with
  | nil => exact .done
  | cons arg args ih =>
      refine (relocates_passArg arg).bind fun passed => ?_
      exact ih.bind fun others => .done

theorem relocates_releaseAll (args : List Value) :
    Relocates env.types move id (releaseAll env args)
      (releaseAll env (args.map (·.rename move.symbol))) := by
  induction args with
  | nil => exact .done
  | cons arg args ih => exact (relocates_release arg).bind fun _ => ih

theorem relocates_resultSlot (returns : TypeId) :
    Relocates env.types move (Option.map move.both) (resultSlot env returns)
      (resultSlot env returns) := by
  unfold resultSlot
  refine .branches .rfl .done (relocates_temp.bind fun slot => ?_)
  exact (relocates_emit (.alloca slot _)).bind fun _ => .done

theorem relocates_dispatch (callee : Callee) (args : List Value) :
    Relocates env.types move (Option.map (·.rename move.symbol)) (dispatch env callee args)
      (dispatch env callee (args.map (·.rename move.symbol))) := by
  have same : (args.map (·.rename move.symbol)).map (·.type) = args.map (·.type) := by
    simp [Function.comp_def]
  unfold dispatch
  rw [same]
  refine (relocates_ofExcept _).bind fun target => ?_
  refine (relocates_passArgs args).bind fun (operands, args) => ?_
  refine (relocates_resultSlot target.returns).bind fun result => ?_
  have called : Relocates env.types move id _ _ :=
    relocates_emit (.call none .void target.symbol (operands ++ (result.map Prod.fst).toList))
  have placed : (operands ++ (result.map Prod.fst).toList).map (·.rename move.symbol) =
      operands.map (·.rename move.symbol) ++ ((result.map move.both).map Prod.fst).toList := by
    cases result <;> simp [Relocation.both]
  simp only [Instr.rename, placed] at called
  refine called.bind fun _ => (relocates_releaseAll args).bind fun _ => ?_
  cases result <;> exact .done

theorem relocates_coerceToBool (value : Value) :
    Relocates env.types move (·.rename move.symbol) (coerceToBool env value)
      (coerceToBool env (value.rename move.symbol)) := by
  unfold coerceToBool
  refine .branches .rfl .done ?_
  exact (relocates_dispatch .boolean [value]).bind fun result => relocates_required result

theorem relocates_negate (value : Value) :
    Relocates env.types move (·.rename move.symbol) (negate env value)
      (negate env (value.rename move.symbol)) := by
  refine (relocates_operandOf value).bind fun flag => relocates_temp.bind fun dest => ?_
  exact (relocates_emit (.select dest flag ⟨.i1, .bool false⟩ ⟨.i1, .bool true⟩)).bind
    fun _ => .done

/-! ## Forms of expressions -/

theorem relocates_condition {test test' : Lowering Value}
    (tests : Relocates env.types move (·.rename move.symbol) test test') :
    Relocates env.types move (·.rename move.symbol) (condition env test) (condition env test') := by
  refine tests.bind fun value => (relocates_coerceToBool value).bind fun flag => ?_
  exact relocates_operandOf flag

theorem relocates_checkArgument (entry : MethodEntry) (found : TypeId) :
    Relocates env.types move id (checkArgument env entry found)
      (checkArgument env entry found) := by
  unfold checkArgument
  split
  · exact .done
  · exact (relocates_ofExcept _).bind fun expected => .branches .rfl .fails .done

theorem relocates_binary (op : BinaryOperator) {left left' right right' : Lowering Value}
    (lefts : Relocates env.types move (·.rename move.symbol) left left')
    (rights : Relocates env.types move (·.rename move.symbol) right right') :
    Relocates env.types move (·.rename move.symbol) (binary env op left right)
      (binary env op left' right') := by
  refine lefts.bind fun l => rights.bind fun r => ?_
  simp only [Value.rename_type]
  split
  · exact .fails
  · refine (relocates_checkArgument _ _).bind fun _ => ?_
    refine (relocates_dispatch (.method l.type op.method) [l, r]).bind fun result => ?_
    refine (relocates_required result).bind fun value => ?_
    exact .branches .rfl (relocates_negate value) .done

theorem relocates_joinAddresses (type : TypeId) (first second : Operand × Binding × BlockId) :
    Relocates env.types move (·.rename move.symbol) (joinAddresses env type first second)
      (joinAddresses env type (first.1.rename move.symbol, first.2)
        (second.1.rename move.symbol, second.2)) := by
  refine (relocates_valueIr type).bind fun ir => relocates_temp.bind fun dest => ?_
  refine (relocates_emit (.phi dest ir.ptr [(first.1, first.2.2), (second.1, second.2.2)])).bind
    fun _ => ?_
  exact (relocates_mergeBinding type first.2 second.2).bind fun _ => .done

theorem rename_branch (connective : Connective) (flag : Operand) (right skip : BlockId)
    (change : String → String) :
    (connective.branch flag right skip).rename change =
      connective.branch (flag.rename change) right skip := by
  cases connective <;> rfl

theorem relocates_connectAlike (left right : Value) (skip join : BlockId) :
    Relocates env.types move (·.rename move.symbol) (connectAlike env left right skip join)
      (connectAlike env (left.rename move.symbol) (right.rename move.symbol) skip join) := by
  refine (relocates_obtainAddress right).bind fun obtained => ?_
  refine (relocates_release left).bind fun _ => relocates_currentBlock.bind fun rightEnd => ?_
  refine (relocates_br _).bind fun _ => (relocates_switchTo _).bind fun _ => ?_
  refine (relocates_obtainAddress left).bind fun obtained' => ?_
  refine (relocates_br _).bind fun _ => (relocates_switchTo _).bind fun _ => ?_
  exact relocates_joinAddresses _ _ _

theorem relocates_connectFlags (left right : Value) (leftFlag : Operand) (skip join : BlockId) :
    Relocates env.types move (·.rename move.symbol)
      (connectFlags env left right leftFlag skip join)
      (connectFlags env (left.rename move.symbol) (right.rename move.symbol)
        (leftFlag.rename move.symbol) skip join) := by
  refine (relocates_coerceToBool right).bind fun truth => ?_
  refine (relocates_operandOf truth).bind fun rightFlag => ?_
  refine relocates_currentBlock.bind fun rightEnd => (relocates_br _).bind fun _ => ?_
  refine (relocates_switchTo _).bind fun _ => (relocates_br _).bind fun _ => ?_
  refine (relocates_switchTo _).bind fun _ => relocates_temp.bind fun dest => ?_
  refine (relocates_emit (.phi dest .i1 [(leftFlag, skip), (rightFlag, rightEnd)])).bind
    fun _ => ?_
  exact (relocates_release left).bind fun _ => .done

theorem relocates_connect (connective : Connective) {left left' right right' : Lowering Value}
    (lefts : Relocates env.types move (·.rename move.symbol) left left')
    (rights : Relocates env.types move (·.rename move.symbol) right right') :
    Relocates env.types move (·.rename move.symbol) (connect env connective left right)
      (connect env connective left' right') := by
  refine lefts.bind fun l => ?_
  simp only [Value.rename_borrowed]
  refine (relocates_coerceToBool l.borrowed).bind fun truth => ?_
  refine (relocates_operandOf truth).bind fun flag => ?_
  refine (relocates_newBlock _).bind fun rightBlock => (relocates_newBlock _).bind fun skip => ?_
  refine (relocates_newBlock _).bind fun join => ?_
  have branched : Relocates env.types move id _ _ :=
    relocates_terminate (connective.branch flag rightBlock skip)
  rw [rename_branch] at branched
  refine branched.bind fun _ => (relocates_switchTo _).bind fun _ => ?_
  refine rights.bind fun r => ?_
  exact .branches .rfl (relocates_connectAlike l r skip join)
    (relocates_connectFlags l r flag skip join)

theorem relocates_choose {test test' : Lowering Operand}
    {onTrue onTrue' onFalse onFalse' : Lowering Value}
    (tests : Relocates env.types move (·.rename move.symbol) test test')
    (trues : Relocates env.types move (·.rename move.symbol) onTrue onTrue')
    (falses : Relocates env.types move (·.rename move.symbol) onFalse onFalse') :
    Relocates env.types move (·.rename move.symbol) (choose env test onTrue onFalse)
      (choose env test' onTrue' onFalse') := by
  refine tests.bind fun flag => ?_
  refine (relocates_newBlock _).bind fun trueBlock => ?_
  refine (relocates_newBlock _).bind fun falseBlock => (relocates_newBlock _).bind fun fin => ?_
  refine (relocates_terminate (.condBr flag trueBlock falseBlock)).bind fun _ => ?_
  refine (relocates_switchTo _).bind fun _ => trues.bind fun a => ?_
  refine (relocates_obtainAddress a).bind fun placeA => ?_
  refine relocates_currentBlock.bind fun trueEnd => (relocates_br _).bind fun _ => ?_
  refine (relocates_switchTo _).bind fun _ => falses.bind fun b => ?_
  refine .branches .rfl .fails_bind ?_
  refine (relocates_obtainAddress b).bind fun placeB => ?_
  refine relocates_currentBlock.bind fun falseEnd => (relocates_br _).bind fun _ => ?_
  exact (relocates_switchTo _).bind fun _ => relocates_joinAddresses _ _ _

theorem relocates_element {container container' position position' : Lowering Value}
    (containers : Relocates env.types move (·.rename move.symbol) container container')
    (positions : Relocates env.types move (·.rename move.symbol) position position') :
    Relocates env.types move (·.rename move.symbol) (element env container position)
      (element env container' position') := by
  refine containers.bind fun c => ?_
  simp only [Value.rename_type]
  split
  · exact .fails
  · next element indexed =>
      refine positions.bind fun p => ?_
      refine .branches .rfl .fails_bind ?_
      refine (relocates_valueIr element).bind fun ir => (relocates_operandOf c).bind fun base => ?_
      refine (relocates_obtainValue p).bind fun offset => relocates_temp.bind fun dest => ?_
      refine (relocates_emit (.elementPtr dest ir base [offset.1])).bind fun _ => ?_
      exact (relocates_release offset.2).bind fun _ => .done

theorem relocates_call (callee : String) {args args' : Lowering (List Value)}
    (each : Relocates env.types move (List.map (·.rename move.symbol)) args args') :
    Relocates env.types move (Option.map (·.rename move.symbol)) (call env callee args)
      (call env callee args') := by
  refine (relocates_ofExcept _).bind fun target => each.bind fun values => ?_
  exact relocates_dispatch target values

/-! ## Expressions -/

theorem relocates_used {step step' : Lowering (Option Value)}
    (each : Relocates env.types move (Option.map (·.rename move.symbol)) step step') :
    Relocates env.types move (·.rename move.symbol) (step >>= required) (step' >>= required) :=
  each.bind fun result => relocates_required result

theorem relocates_some {step step' : Lowering Value}
    (each : Relocates env.types move (·.rename move.symbol) step step') :
    Relocates env.types move (Option.map (·.rename move.symbol)) (some <$> step)
      (some <$> step') :=
  each.map fun _ => rfl

mutual

/-- Behind other code an expression is lowered in the same way, but for the numbers of literals. -/
theorem relocates_operand? (e : Expr) :
    Relocates env.types move (Option.map (·.rename move.symbol)) (operand? env e)
      (operand? env e) := by
  cases e with
  | bool value =>
      rw [operand?]
      exact relocates_some (relocates_literal (fun _ => .bool value .refl)
        fun _ _ => Pool.follows_bool value)
  | int value =>
      rw [operand?]
      exact relocates_some (relocates_literal (fun _ => .int value .refl)
        fun _ few => Pool.follows_int (move.shifts _ few) value)
  | float value =>
      rw [operand?]
      exact relocates_some (relocates_literal (fun _ => .float value .refl)
        fun _ few => Pool.follows_float (move.shifts _ few) value)
  | string value =>
      rw [operand?]
      exact relocates_some (relocates_literal (fun _ => .string value .refl)
        fun _ few => Pool.follows_string (move.shifts _ few) value)
  | name name =>
      rw [operand?]
      exact relocates_some (relocates_lookup name)
  | binary op left right =>
      rw [operand?]
      exact relocates_some (relocates_binary op (relocates_used (relocates_operand? left))
        (relocates_used (relocates_operand? right)))
  | not operand =>
      rw [operand?]
      refine relocates_some ((relocates_used (relocates_operand? operand)).bind fun value => ?_)
      exact (relocates_coerceToBool value).bind fun truth => relocates_negate truth
  | and left right =>
      rw [operand?]
      exact relocates_some (relocates_connect .and (relocates_used (relocates_operand? left))
        (relocates_used (relocates_operand? right)))
  | or left right =>
      rw [operand?]
      exact relocates_some (relocates_connect .or (relocates_used (relocates_operand? left))
        (relocates_used (relocates_operand? right)))
  | ternary test onTrue onFalse =>
      rw [operand?]
      exact relocates_some (relocates_choose
        (relocates_condition (relocates_used (relocates_operand? test)))
        (relocates_used (relocates_operand? onTrue))
        (relocates_used (relocates_operand? onFalse)))
  | index container position =>
      rw [operand?]
      exact relocates_some (relocates_element (relocates_used (relocates_operand? container))
        (relocates_used (relocates_operand? position)))
  | call callee args =>
      rw [operand?]
      exact relocates_call callee (relocates_operands args)

theorem relocates_operands (es : List Expr) :
    Relocates env.types move (List.map (·.rename move.symbol)) (operands env es)
      (operands env es) := by
  cases es with
  | nil =>
      rw [operands]
      exact .done
  | cons first rest =>
      rw [operands]
      refine (relocates_used (relocates_operand? first)).bind fun value => ?_
      exact (relocates_operands rest).bind fun values => .done

end

theorem relocates_value (e : Expr) :
    Relocates env.types move (·.rename move.symbol) (value env e) (value env e) :=
  relocates_used (relocates_operand? e)

theorem relocates_effect (e : Expr) :
    Relocates env.types move id (effect env e) (effect env e) :=
  (relocates_operand? e).map fun _ => rfl

end LlvmBackend.Lowering
