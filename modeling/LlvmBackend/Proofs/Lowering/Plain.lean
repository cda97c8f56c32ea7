import LlvmBackend.Lowering.Function
import LlvmBackend.Proofs.Plain

/-! # Steps without literals

All steps of the lowering but those for literals are plain: the steps that change a state, what is
done with values, and what expressions, statements and functions do between their parts.
-/

namespace LlvmBackend.Lowering

open Ir

/-! ## Single steps -/

section

variable {types : Registry}

theorem plain_tempNumber : Plain types tempNumber := .modifies fun _ _ => rfl

theorem plain_temp : Plain types temp := plain_tempNumber.bind fun _ => .done

theorem plain_ofExcept {α : Type} {check : Except CodegenError α}
    (known : types.Closed → ∀ name, check ≠ .error (.unknownType name)) :
    Plain types (ofExcept check) := by
  cases check with
  | ok value => exact .done
  | error error =>
      refine ⟨fun _ _ => rfl, fun closed => ?_⟩
      rintro _ name _ failed
      cases failed
      exact known closed name rfl

theorem plain_note (message : Note) : Plain types (note message) := .modifies fun _ _ => rfl

theorem plain_functionName : Plain types functionName := .reads (fun _ _ => rfl) fun _ => .done

theorem plain_currentBlock : Plain types currentBlock := .reads (fun _ _ => rfl) fun _ => .done

theorem plain_isTerminated : Plain types isTerminated := .reads (fun _ _ => rfl) fun _ => .done

theorem plain_newBlock (hint : String) : Plain types (newBlock hint) := .modifies fun _ _ => rfl

theorem plain_switchTo (block : BlockId) : Plain types (switchTo block) := .modifies fun _ _ => rfl

theorem plain_define (name : String) (value : Value) : Plain types (define name value) :=
  .modifies fun _ _ => rfl

/-- A change of the code that fails only if control already left the block in use. -/
theorem plain_builds (change : Builder → Except CodegenError Builder)
    (fails : ∀ builder error, change builder = .error error →
      ∃ function block, error = .blockAlreadyTerminated function block) :
    Plain types (do
      let builder ← ofExcept (change (← get).builder)
      modify fun state => { state with builder } : Lowering Unit) := by
  refine .reads (fun _ _ => rfl) fun state => (plain_ofExcept fun _ name eq => ?_).bind fun builder =>
    .modifies fun _ _ => rfl
  obtain ⟨_, _, ⟨⟩⟩ := fails _ _ eq

theorem plain_emit (instr : Instr) : Plain types (emit instr) := by
  refine plain_builds (·.emit instr) fun builder error failed => ?_
  unfold Builder.emit Builder.modifyOpen at failed
  split at failed
  · cases failed
    exact ⟨_, _, rfl⟩
  · cases failed

theorem plain_terminate (terminator : Terminator) : Plain types (terminate terminator) := by
  refine plain_builds (·.terminate terminator) fun builder error failed => ?_
  unfold Builder.terminate Builder.modifyOpen at failed
  split at failed
  · cases failed
    exact ⟨_, _, rfl⟩
  · cases failed

theorem plain_branchIfOpen (target : BlockId) : Plain types (branchIfOpen target) := by
  refine plain_isTerminated.bind fun ended => ?_
  cases ended with
  | true => exact .done
  | false => exact plain_terminate _

theorem plain_lookup (name : String) : Plain types (lookup name) := by
  refine .reads (fun _ _ => rfl) fun state => ?_
  split
  · exact .done
  · exact plain_functionName.bind fun _ => .fails nofun

theorem plain_required (value : Option Value) : Plain types (required value) := by
  cases value with
  | some value => exact .done
  | none => exact plain_functionName.bind fun _ => .fails nofun

end

variable {env : Surroundings}

/-! ## Values -/

theorem plain_valueIr (type : TypeId) : Plain env.types (valueIr env type) := by
  unfold valueIr
  refine .branches ?_ .done
  exact plain_functionName.bind fun _ => .bind (.fails nofun) fun _ => .done

theorem plain_obtainValue (value : Value) : Plain env.types (obtainValue env value) := by
  refine (plain_valueIr value.type).bind fun ir => ?_
  split
  · exact .done
  · exact .done
  · exact plain_temp.bind fun dest => (plain_emit _).bind fun _ => .done

theorem plain_operandOf (value : Value) : Plain env.types (operandOf env value) :=
  (plain_obtainValue value).bind fun _ => .done

theorem plain_obtainAddress (value : Value) : Plain env.types (obtainAddress env value) := by
  refine (plain_valueIr value.type).bind fun ir => ?_
  split
  · exact .done
  · exact .done
  · exact plain_temp.bind fun slot => (plain_emit _).bind fun _ => (plain_emit _).bind fun _ => .done

/-! ## Ownership -/

theorem plain_guarded (flag : Nat) (instr : Instr) : Plain env.types (guarded flag instr) := by
  refine (plain_newBlock _).bind fun owned => (plain_newBlock _).bind fun fin => ?_
  refine (plain_terminate _).bind fun _ => (plain_switchTo _).bind fun _ => ?_
  exact (plain_emit _).bind fun _ => (plain_terminate _).bind fun _ => plain_switchTo _

theorem plain_release (value : Value) : Plain env.types (release env value) := by
  unfold release
  split
  · exact .done
  · split
    · exact plain_emit _
    · exact plain_guarded _ _
    · exact .done
    · exact .done

theorem plain_mergeBinding (type : TypeId) (first second : Binding × BlockId) :
    Plain env.types (mergeBinding env type first second) := by
  unfold mergeBinding
  refine .branches .done (.branches .done ?_)
  exact plain_tempNumber.bind fun flag => (plain_emit _).bind fun _ => .done

/-! ## Calls -/

theorem plain_passArg (arg : Value) : Plain env.types (passArg env arg) := by
  unfold passArg
  exact .branches (plain_obtainValue arg) (plain_obtainAddress arg)

theorem plain_passArgs (args : List Value) : Plain env.types (passArgs env args) := by
  induction args with
  | nil => exact .done
  | cons arg rest ih => exact (plain_passArg arg).bind fun _ => ih.bind fun _ => .done

theorem plain_releaseAll (args : List Value) : Plain env.types (releaseAll env args) := by
  induction args with
  | nil => exact .done
  | cons arg rest ih => exact (plain_release arg).bind fun _ => ih

theorem plain_resultSlot (returns : TypeId) : Plain env.types (resultSlot env returns) := by
  unfold resultSlot
  exact .branches .done (plain_temp.bind fun slot => (plain_emit _).bind fun _ => .done)

theorem resolve_ne_unknown {types : Registry} {name : String} (known : (types.lookup name).isSome)
    (other : String) : types.resolve name ≠ .error (.unknownType other) := by
  obtain ⟨type, found⟩ := Option.isSome_iff_exists.mp known
  simp [Registry.resolve_eq_ok.mpr found]

theorem bindFunction_ne_unknown (types : Registry) (table : SignatureTable) (name : String)
    (args : List TypeId) (other : String) :
    Callee.bindFunction types table name args ≠ .error (.unknownType other) := by
  unfold Callee.bindFunction
  split
  · nofun
  · split
    · nofun
    · split <;> nofun

theorem bindMethod_ne_unknown {types : Registry} (closed : types.Closed) (type : TypeId)
    (name other : String) : Callee.bindMethod types type name ≠ .error (.unknownType other) := by
  unfold Callee.bindMethod
  split
  · nofun
  · next entry found =>
    obtain ⟨returns, known⟩ := Option.isSome_iff_exists.mp (closed.method found (.inl rfl))
    simp [Registry.resolve_eq_ok.mpr known]

/-- A callee is bound or not for other reasons than the name of a type. -/
theorem bind_ne_unknown {types : Registry} (closed : types.Closed) (callee : Callee)
    (table : SignatureTable) (args : List TypeId) (other : String) :
    callee.bind types table args ≠ .error (.unknownType other) := by
  cases callee with
  | function name => exact bindFunction_ne_unknown types table name args other
  | method type name => exact bindMethod_ne_unknown closed type name other
  | protocol name shared =>
      simp only [Callee.bind]
      split
      · split
        · exact bindFunction_ne_unknown types table name _ other
        · exact bindMethod_ne_unknown closed _ shared other
      · simp

theorem plain_dispatch (callee : Callee) (args : List Value) :
    Plain env.types (dispatch env callee args) := by
  refine (plain_ofExcept fun closed => bind_ne_unknown closed callee _ _).bind fun target => ?_
  refine (plain_passArgs args).bind fun passed => ?_
  refine (plain_resultSlot target.returns).bind fun result => (plain_emit _).bind fun _ => ?_
  exact (plain_releaseAll _).bind fun _ => .done

theorem plain_coerceToBool (value : Value) : Plain env.types (coerceToBool env value) := by
  unfold coerceToBool
  exact .branches .done ((plain_dispatch _ _).bind fun result => plain_required result)

theorem plain_negate (value : Value) : Plain env.types (negate env value) :=
  (plain_operandOf value).bind fun _ => plain_temp.bind fun _ => (plain_emit _).bind fun _ => .done

/-! ## Between the parts of expressions -/

/-- The type of an argument is there if a method of a type names it. -/
theorem plain_checkArgument {type : TypeId} {name : String} {entry : MethodEntry}
    (method : env.types.method type name = some entry) (found : TypeId) :
    Plain env.types (checkArgument env entry found) := by
  unfold checkArgument
  split
  · exact .done
  · next argument named =>
    refine (plain_ofExcept fun closed => ?_).bind fun expected => .branches (.fails nofun) .done
    exact resolve_ne_unknown (closed.method method (.inr named))

/-- An operator behind its operands. -/
theorem plain_binary (op : BinaryOperator) (left right : Value) :
    Plain env.types (binary env op (pure left) (pure right)) := by
  simp only [binary, pure_bind]
  split
  · exact .fails nofun
  · next entry method =>
    refine (plain_checkArgument method _).bind fun _ => (plain_dispatch _ _).bind fun result => ?_
    exact (plain_required result).bind fun value => .branches (plain_negate value) .done

theorem plain_joinAddresses (type : TypeId) (first second : Operand × Binding × BlockId) :
    Plain env.types (joinAddresses env type first second) := by
  refine (plain_valueIr type).bind fun ir => plain_temp.bind fun dest => ?_
  exact (plain_emit _).bind fun _ => (plain_mergeBinding _ _ _).bind fun _ => .done

variable (env) in
/-- A connective between its operands: the flag of the left one, and the blocks that are left. -/
def enterRight (connective : Connective) (left : Value) :
    Lowering (Operand × BlockId × BlockId) := do
  let leftFlag ← operandOf env (← coerceToBool env left.borrowed)
  let rightBlock ← newBlock connective.rightHint
  let skip ← newBlock connective.skipHint
  let join ← newBlock connective.joinHint
  terminate (connective.branch leftFlag rightBlock skip)
  switchTo rightBlock
  return (leftFlag, skip, join)

variable (env) in
/-- A connective behind its operands. -/
def connected (left right : Value) (flag : Operand) (skip join : BlockId) : Lowering Value :=
  if right.type = left.type then connectAlike env left right skip join
  else connectFlags env left right flag skip join

theorem connect_eq (connective : Connective) (left right : Lowering Value) :
    connect env connective left right = left >>= fun l => enterRight env connective l >>=
      fun (flag, skip, join) => right >>= fun r => connected env l r flag skip join := by
  simp only [connect, enterRight, connected, bind_assoc, pure_bind]

theorem plain_enterRight (connective : Connective) (left : Value) :
    Plain env.types (enterRight env connective left) := by
  refine (plain_coerceToBool _).bind fun truth => (plain_operandOf truth).bind fun flag => ?_
  refine (plain_newBlock _).bind fun rightBlock => (plain_newBlock _).bind fun skip => ?_
  refine (plain_newBlock _).bind fun join => (plain_terminate _).bind fun _ => ?_
  exact (plain_switchTo _).bind fun _ => .done

theorem plain_connected (left right : Value) (flag : Operand) (skip join : BlockId) :
    Plain env.types (connected env left right flag skip join) := by
  refine .branches ?_ ?_
  · refine (plain_obtainAddress right).bind fun _ => (plain_release left).bind fun _ => ?_
    refine plain_currentBlock.bind fun rightEnd => (plain_terminate _).bind fun _ => ?_
    refine (plain_switchTo _).bind fun _ => (plain_obtainAddress left).bind fun _ => ?_
    refine (plain_terminate _).bind fun _ => (plain_switchTo _).bind fun _ => ?_
    exact plain_joinAddresses _ _ _
  · refine (plain_coerceToBool right).bind fun truth => (plain_operandOf truth).bind fun _ => ?_
    refine plain_currentBlock.bind fun rightEnd => (plain_terminate _).bind fun _ => ?_
    refine (plain_switchTo _).bind fun _ => (plain_terminate _).bind fun _ => ?_
    refine (plain_switchTo _).bind fun _ => plain_temp.bind fun dest => ?_
    exact (plain_emit _).bind fun _ => (plain_release left).bind fun _ => .done

/-- A choice between its condition and its first value. -/
def enterTrue (flag : Operand) : Lowering (BlockId × BlockId) := do
  let trueBlock ← newBlock "ternary-if"
  let falseBlock ← newBlock "ternary-else"
  let fin ← newBlock "ternary-fin"
  terminate (.condBr flag trueBlock falseBlock)
  switchTo trueBlock
  return (falseBlock, fin)

variable (env) in
/-- A choice between its values: where the first one stands and what it became. -/
def enterFalse (onTrue : Value) (falseBlock fin : BlockId) :
    Lowering (Value × Operand × Binding × BlockId) := do
  let (trueAddress, onTrue) ← obtainAddress env onTrue
  let trueEnd ← currentBlock
  terminate (.br fin)
  switchTo falseBlock
  return (onTrue, trueAddress.operand, onTrue.binding, trueEnd)

variable (env) in
/-- A choice behind its values. -/
def chosen (onTrue : Value) (first : Operand × Binding × BlockId) (onFalse : Value)
    (fin : BlockId) : Lowering Value := do
  if onFalse.type ≠ onTrue.type then
    throw (.branchTypeMismatch (env.types.name onTrue.type) (env.types.name onFalse.type))
  let (falseAddress, onFalse) ← obtainAddress env onFalse
  let falseEnd ← currentBlock
  terminate (.br fin)
  switchTo fin
  joinAddresses env onTrue.type first (falseAddress.operand, onFalse.binding, falseEnd)

theorem choose_eq (test : Lowering Operand) (onTrue onFalse : Lowering Value) :
    choose env test onTrue onFalse = test >>= fun flag => enterTrue flag >>= fun (falseBlock, fin) =>
      onTrue >>= fun a => enterFalse env a falseBlock fin >>= fun (a, first) =>
        onFalse >>= fun b => chosen env a first b fin := by
  simp only [choose, enterTrue, enterFalse, chosen, bind_assoc, pure_bind]

theorem plain_enterTrue {types : Registry} (flag : Operand) : Plain types (enterTrue flag) := by
  refine (plain_newBlock _).bind fun trueBlock => (plain_newBlock _).bind fun falseBlock => ?_
  refine (plain_newBlock _).bind fun fin => (plain_terminate _).bind fun _ => ?_
  exact (plain_switchTo _).bind fun _ => .done

theorem plain_enterFalse (onTrue : Value) (falseBlock fin : BlockId) :
    Plain env.types (enterFalse env onTrue falseBlock fin) := by
  refine (plain_obtainAddress onTrue).bind fun _ => plain_currentBlock.bind fun trueEnd => ?_
  exact (plain_terminate _).bind fun _ => (plain_switchTo _).bind fun _ => .done

theorem plain_chosen (onTrue : Value) (first : Operand × Binding × BlockId) (onFalse : Value)
    (fin : BlockId) : Plain env.types (chosen env onTrue first onFalse fin) := by
  have joined (onFalse : Value) : Plain env.types (do
      let (falseAddress, onFalse) ← obtainAddress env onFalse
      let falseEnd ← currentBlock
      terminate (.br fin)
      switchTo fin
      joinAddresses env onTrue.type first (falseAddress.operand, onFalse.binding, falseEnd)) := by
    refine (plain_obtainAddress onFalse).bind fun _ => plain_currentBlock.bind fun falseEnd => ?_
    refine (plain_terminate _).bind fun _ => (plain_switchTo _).bind fun _ => ?_
    exact plain_joinAddresses _ _ _
  exact .branches (.bind (.fails nofun) fun _ => joined onFalse) (joined onFalse)

theorem element_eq (container position : Lowering Value) :
    element env container position = container >>= fun c =>
      match env.types.element c.type with
      | none => throw (.notIndexable (env.types.name c.type))
      | some _ => position >>= fun p => element env (pure c) (pure p) := by
  unfold element
  refine bind_congr fun c => ?_
  cases indexed : env.types.element c.type <;> simp [indexed]

/-- An element of a container behind its parts. -/
theorem plain_element (container position : Value) :
    Plain env.types (element env (pure container) (pure position)) := by
  simp only [element, pure_bind]
  split
  · exact .fails nofun
  · next element _ =>
    have indexed : Plain env.types (do
        let type ← valueIr env element
        let base ← operandOf env container
        let (offset, position) ← obtainValue env position
        let dest ← temp
        emit (.elementPtr dest type base [offset])
        release env position
        return .stable element dest : Lowering Value) := by
      refine (plain_valueIr _).bind fun ir => (plain_operandOf _).bind fun base => ?_
      refine (plain_obtainValue _).bind fun offset => plain_temp.bind fun dest => ?_
      exact (plain_emit _).bind fun _ => (plain_release _).bind fun _ => .done
    exact .branches (.bind (.fails nofun) fun _ => indexed) indexed

theorem plain_callee (name : String) (table : SignatureTable) :
    Plain env.types (ofExcept (Callee.resolve name table)) := by
  refine plain_ofExcept fun _ other => ?_
  unfold Callee.resolve
  split
  · nofun
  · split <;> nofun

/-! ## Between the parts of statements -/

theorem plain_newSlot (name : String) (type : TypeId) : Plain env.types (newSlot env name type) := by
  refine (plain_valueIr type).bind fun ir => Plain.bind (.modifies fun _ _ => rfl) fun slot => ?_
  exact plain_functionName.bind fun _ => (plain_note _).bind fun _ => .done

theorem plain_variableSlot (name : String) (type : TypeId) :
    Plain env.types (variableSlot env name type) := by
  refine .reads (fun _ _ => rfl) fun state => ?_
  split
  · exact .done
  · exact plain_newSlot name type

/-- An assignment behind its value. -/
theorem plain_assign (target : String) (value : Value) :
    Plain env.types (assign env target (pure value)) := by
  refine (plain_obtainValue value).bind fun _ => (plain_variableSlot _ _).bind fun slot => ?_
  exact (plain_emit _).bind fun _ => plain_define _ _

/-- The type of elements is there if the method for them names it. -/
theorem plain_iteration (source : TypeId) : Plain env.types (iteration env source) := by
  unfold iteration
  split
  · exact .fails nofun
  · next entry found =>
    refine (plain_ofExcept fun closed => ?_).bind fun _ => .done
    exact resolve_ne_unknown (closed.method found (.inl rfl))

theorem plain_refuseReturn {α : Type} (expected found : TypeId) :
    Plain env.types (refuseReturn env expected found : Lowering α) :=
  plain_functionName.bind fun _ => .fails nofun

theorem plain_returnValue (expected : TypeId) (value : Value) :
    Plain env.types (returnValue env expected value) := by
  unfold returnValue
  refine .branches ((plain_refuseReturn _ _).bind fun _ => ?_) ?_
  all_goals
    exact (plain_obtainValue value).bind fun _ => (plain_emit _).bind fun _ => plain_terminate _

theorem plain_nextArm (fin : BlockId) (index : Nat) (rest : List Arm) :
    Plain env.types (nextArm fin index rest) := by
  match rest with
  | [] => exact .done
  | .mk (some _) _ :: _ => exact plain_newBlock _
  | .mk none _ :: _ => exact plain_newBlock _

/-! ## Functions around their bodies -/

theorem plain_leaveAtEnd {types : Registry} (value : Option TypedOperand) :
    Plain types (leaveAtEnd value) := by
  refine plain_isTerminated.bind fun ended => ?_
  cases ended with
  | true => exact .done
  | false => exact plain_terminate _

theorem plain_openEntry {types : Registry} (arguments : TypeId) :
    Plain types (openEntry types arguments) := by
  refine (plain_emit _).bind fun _ => (plain_emit _).bind fun _ => (plain_emit _).bind fun _ => ?_
  refine (plain_emit _).bind fun _ => (plain_emit _).bind fun _ => (plain_emit _).bind fun _ => ?_
  refine (plain_emit _).bind fun _ => (plain_define _ _).bind fun _ => ?_
  exact (plain_define _ _).bind fun _ => .modifies fun _ _ => rfl

end LlvmBackend.Lowering
