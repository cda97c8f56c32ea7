import LlvmBackend.Lowering.Expr
import LlvmBackend.Proofs.Typing.Steps
import LlvmBackend.Registry.Builtin

/-! # Types of what expressions use

The steps for values, calls and expressions: where the values that go in have their types in the
emitted code, all operands are used at the right types and the values that come out have theirs.
-/

namespace LlvmBackend

open Ir FunctionState

/-! ## Registries -/

/-- Types that fit together in emitted code: truth values are flags, comparisons and coercions give
    truth values, and a container is the address of its elements. -/
structure Registry.Faithful (types : Registry) : Prop where
  truth : types.ir Registry.bool = "i1"
  tests : ∀ type, ∀ name ∈ ["__bool__", "__eq__"], ∀ entry ∈ types.method type name,
    entry.returns = "bool"
  elements : ∀ type, ∀ element ∈ types.element type, types.ir type = types.ir element ++ "*"
  arguments : ∀ type ∈ types.lookup argumentsType.name,
    types.ir type = types.ir Registry.string ++ "*"

/-- The types fit together, and nothing takes the place of the coercion to truth values. -/
structure Surroundings.Faithful (env : Surroundings) : Prop where
  types : env.types.Faithful
  coercion : env.signatures.get? "bool" = none

theorem Registry.lookup_bool (types : Registry) : types.lookup "bool" = some Registry.bool := by
  obtain ⟨rest, eq⟩ := types.core
  match h : types.descriptors with
  | [] | [_] => simp [coreNames, h] at eq
  | first :: second :: others =>
      obtain ⟨void, bool, _⟩ : "void" = first.name ∧ "bool" = second.name ∧ _ := by
        simpa [coreNames, h] using eq
      simp [lookup, h, List.findIdx?_cons, ← void, ← bool, Registry.bool]

theorem Registry.Faithful.truth_ir {types : Registry} (faithful : types.Faithful) :
    (⟨types.ir Registry.bool⟩ : IrType) = .i1 := by
  rw [faithful.truth, IrType.i1]

theorem Registry.describe_mem (types : Registry) (type : TypeId) :
    types.describe type ∈ types.descriptors ∨ types.describe type = { name := "", ir := "" } := by
  unfold Registry.describe
  cases there : types.descriptors[type.index]? with
  | none => exact .inr rfl
  | some descriptor => exact .inl (List.mem_of_getElem? there)

/-- The builtin types fit together. -/
theorem Registry.faithful_builtin : Registry.builtin.Faithful where
  truth := rfl
  tests := by
    intro type name tests entry method
    have known : ∀ descriptor ∈ Registry.builtin.descriptors, ∀ name ∈ ["__bool__", "__eq__"],
        ∀ entry ∈ descriptor.methods.get? name, entry.returns = "bool" := by decide +kernel
    rcases Registry.builtin.describe_mem type with mem | unknown
    · exact known _ mem name tests entry method
    · rw [Registry.method, unknown] at method
      cases method
  elements := by
    intro type element indexed
    have known : ∀ descriptor ∈ Registry.builtin.descriptors,
        ∀ element ∈ descriptor.element.bind Registry.builtin.lookup,
          descriptor.ir = Registry.builtin.ir element ++ "*" := by decide +kernel
    rcases Registry.builtin.describe_mem type with mem | unknown
    · exact known _ mem element indexed
    · rw [Registry.element, unknown] at indexed
      cases indexed
  arguments := by decide +kernel

namespace Lowering

variable {env : Surroundings} {has : Operand → IrType → Prop} {given : Prop}
  {state : FunctionState}

/-- A method for tests gives a truth value. -/
theorem bindMethod_truth (faithful : env.types.Faithful) {type : TypeId} {name : String}
    (tests : name ∈ ["__bool__", "__eq__"]) {target : Target}
    (bound : Callee.bindMethod env.types type name = .ok target) :
    target.returns = Registry.bool := by
  unfold Callee.bindMethod at bound
  split at bound
  · cases bound
  · next entry method =>
      rw [faithful.tests type name tests entry method, Registry.resolve, Registry.lookup_bool]
        at bound
      cases bound
      rfl

theorem bind_boolean (faithful : env.Faithful) {type : TypeId} {target : Target}
    (bound : Callee.boolean.bind env.types env.signatures [type] = .ok target) :
    target.returns = Registry.bool := by
  simp only [Callee.boolean, Callee.bind, faithful.coercion, Option.isSome_none, Bool.and_false,
    Bool.false_eq_true, if_false] at bound
  exact bindMethod_truth faithful.types (by simp) bound

/-! ## Values -/

theorem typed_valueIr (type : TypeId) : Typed env has given (valueIr env type) state fun ir _ =>
    ir = ⟨env.types.ir type⟩ := by
  by_cases void : type = Registry.void
  · simp only [valueIr, if_pos void]
    rw [← bind_assoc]
    have refused : Typed env has given
        (functionName >>= fun name => throw (.voidValue name) : Lowering PUnit) state
        fun _ _ => True := typed_refuse
    exact refused.bind fun _ _ _ => .done fun _ => rfl
  · simp only [valueIr, if_neg void]
    exact .done fun _ => rfl

/-- What is obtained from a value: an operand of a type, and the value as it is then. -/
structure Obtained (env : Surroundings) (has : Operand → IrType → Prop) (value : Value)
    (type : IrType) (result : TypedOperand × Value) : Prop where
  type : result.1.type = type
  operand : result.1.Fits has
  fits : result.2.Fits env.types has
  sameType : result.2.type = value.type

theorem Obtained.at_type {value : Value} {type : IrType} {result : TypedOperand × Value}
    (obtained : Obtained env has value type result) :
    TypedOperand.Fits has ⟨type, result.1.operand⟩ := by
  rw [← obtained.type]
  exact obtained.operand

theorem typed_obtainValue {value : Value} (fits : given → value.Fits env.types has) :
    Typed env has given (obtainValue env value) state fun result _ =>
      Obtained env has value ⟨env.types.ir value.type⟩ result := by
  obtain ⟨type, storage, binding⟩ := value
  refine (typed_valueIr type).bind fun ir _ _ => ?_
  cases storage with
  | direct operand =>
      refine .done ?_
      rintro ⟨h, rfl⟩
      exact ⟨rfl, (fits h).storage, fits h, rfl⟩
  | cached address loaded =>
      refine .done ?_
      rintro ⟨h, rfl⟩
      exact ⟨rfl, (fits h).storage.2, fits h, rfl⟩
  | addressed address =>
      refine typed_temp.bind fun dest _ _ => ?_
      refine (typed_emit _ ?_).bind fun _ _ _ => .done ?_
      · rintro ⟨⟨h, rfl⟩, isRegister⟩
        refine ⟨?_, by simpa [Instr.dest] using isRegister⟩
        simpa [Instr.uses, Storage.Fits] using (fits h).storage
      · rintro ⟨⟨⟨h, rfl⟩, isRegister⟩, defined⟩
        have loaded : TypedOperand.Fits has ⟨⟨env.types.ir type⟩, dest⟩ :=
          .of_has isRegister (defined ⟨⟨env.types.ir type⟩, dest⟩ rfl)
        refine ⟨rfl, loaded, ⟨?_, (fits h).binding⟩, rfl⟩
        dsimp only
        split
        · exact ⟨(fits h).storage, loaded⟩
        · exact (fits h).storage

theorem typed_operandOf {value : Value} (fits : given → value.Fits env.types has) :
    Typed env has given (operandOf env value) state fun operand _ =>
      TypedOperand.Fits has ⟨⟨env.types.ir value.type⟩, operand⟩ :=
  (typed_obtainValue fits).bind fun _ _ _ => .done fun h => h.2.at_type

theorem typed_obtainAddress {value : Value} (fits : given → value.Fits env.types has) :
    Typed env has given (obtainAddress env value) state fun result _ =>
      Obtained env has value (.ptr ⟨env.types.ir value.type⟩) result := by
  obtain ⟨type, storage, binding⟩ := value
  refine (typed_valueIr type).bind fun ir _ _ => ?_
  cases storage with
  | addressed address =>
      refine .done ?_
      rintro ⟨h, rfl⟩
      exact ⟨rfl, (fits h).storage, fits h, rfl⟩
  | cached address loaded =>
      refine .done ?_
      rintro ⟨h, rfl⟩
      exact ⟨rfl, (fits h).storage.1, fits h, rfl⟩
  | direct operand =>
      refine typed_temp.bind fun slot _ _ => ?_
      have placed : given → slot.isRegister → (∀ defined ∈ (Instr.alloca slot ir).defined?,
          has defined.operand defined.type) → TypedOperand.Fits has ⟨ir.ptr, slot⟩ :=
        fun _ isRegister defined => .of_has isRegister (defined _ rfl)
      refine (typed_emit _ ?_).bind fun _ _ _ => (typed_emit _ ?_).bind fun _ _ _ => .done ?_
      · rintro ⟨_, isRegister⟩
        exact ⟨by simp [Instr.uses], by simpa [Instr.dest] using isRegister⟩
      · rintro ⟨⟨⟨h, rfl⟩, isRegister⟩, defined⟩
        refine ⟨?_, by simp [Instr.dest]⟩
        simpa [Instr.uses, Storage.Fits] using ⟨(fits h).storage, placed h isRegister defined⟩
      · rintro ⟨⟨⟨⟨h, rfl⟩, isRegister⟩, defined⟩, _⟩
        have here := placed h isRegister defined
        exact ⟨rfl, here, ⟨here, (fits h).binding⟩, rfl⟩

/-! ## Ownership -/

theorem typed_guarded {flag : Nat} {instr : Instr}
    (fits : given → TypedOperand.Fits has ⟨.i1, .temp flag⟩ ∧ instr.Fits has) :
    Typed env has given (guarded flag instr) state fun _ _ => True := by
  refine (typed_newBlock _).bind fun owned _ _ => ?_
  refine (typed_newBlock _).bind fun fin _ grows₁ => ?_
  refine (typed_terminate _ fun h => fits_condBr (fits h.1.1).1 _ _ _).andThen fun _ _ grows₂ => ?_
  refine (typed_switchTo _ fun h => ?_).andThen fun _ _ grows₃ => ?_
  · exact Nat.lt_of_lt_of_le h.1.2 (grows₁.trans grows₂).size
  refine (typed_emit _ fun h => (fits h.1.1).2).bind fun _ _ grows₄ => ?_
  refine (typed_br _).andThen fun _ _ grows₅ => ?_
  refine typed_switchTo _ fun h => ?_
  exact Nat.lt_of_lt_of_le h.1.2 (((grows₂.trans grows₃).trans grows₄).trans grows₅).size

theorem fits_teardownCall {type : TypeId} {address : Operand} {call : Instr}
    (eq : teardownCall env type address = some call)
    (fits : TypedOperand.Fits has ⟨.ptr ⟨env.types.ir type⟩, address⟩) : call.Fits has := by
  obtain ⟨entry, _, emitted⟩ := Option.bind_eq_some_iff.mp eq
  cases emitted
  refine ⟨?_, by simp [Instr.dest]⟩
  simpa [Instr.uses] using fits

theorem typed_release {value : Value} (fits : given → value.Fits env.types has) :
    Typed env has given (release env value) state fun _ _ => True := by
  unfold release
  split
  · exact .done fun _ => trivial
  · next call eq =>
      obtain ⟨address, placed, calls⟩ := Option.bind_eq_some_iff.mp eq
      have called : given → call.Fits has := fun h =>
        fits_teardownCall calls ((fits h).storage.address placed)
      split
      · exact (typed_emit call called).mono id fun _ _ _ _ => trivial
      · next flag binding =>
          refine typed_guarded fun h => ⟨?_, called h⟩
          have owner := (fits h).binding
          rwa [binding] at owner
      · exact .done fun _ => trivial
      · exact .done fun _ => trivial

theorem typed_mergeBinding (type : TypeId) {first second : Binding × BlockId}
    (fits : given → first.1.Fits has ∧ second.1.Fits has) :
    Typed env has given (mergeBinding env type first second) state fun binding _ =>
      binding.Fits has := by
  unfold mergeBinding
  split
  · exact .done fun _ => rfl
  · simp only []
    split
    · exact .done fun _ => rfl
    · refine typed_tempNumber.andThen fun flag _ _ => ?_
      refine (typed_emit _ fun h => ⟨?_, by simp [Instr.dest, Operand.isRegister]⟩).bind
        fun _ _ _ => .done fun h => ?_
      · simpa [Instr.uses, Binding.Fits] using fits h
      · exact .of_has rfl (h.2 ⟨.i1, .temp flag⟩ rfl)

/-! ## Calls -/

theorem typed_passArg {arg : Value} (fits : given → arg.Fits env.types has) :
    Typed env has given (passArg env arg) state fun result _ =>
      result.1.Fits has ∧ result.2.Fits env.types has := by
  unfold passArg
  split
  · exact (typed_obtainValue fits).mono id fun _ _ _ got => ⟨got.operand, got.fits⟩
  · exact (typed_obtainAddress fits).mono id fun _ _ _ got => ⟨got.operand, got.fits⟩

theorem typed_passArgs {args : List Value} (fits : given → ∀ arg ∈ args, arg.Fits env.types has) :
    Typed env has given (passArgs env args) state fun result _ =>
      (∀ operand ∈ result.1, operand.Fits has) ∧ ∀ arg ∈ result.2, arg.Fits env.types has := by
  induction args generalizing given state with
  | nil => exact .done fun _ => by simp
  | cons arg args ih =>
      refine (typed_passArg fun h => fits h arg List.mem_cons_self).bind fun _ _ _ => ?_
      refine (ih fun h other mem => fits h.1 other (List.mem_cons_of_mem _ mem)).bind
        fun _ _ _ => .done ?_
      rintro ⟨⟨_, passed, kept⟩, others, rest⟩
      exact ⟨List.forall_mem_cons.mpr ⟨passed, others⟩, List.forall_mem_cons.mpr ⟨kept, rest⟩⟩

theorem typed_releaseAll {args : List Value}
    (fits : given → ∀ arg ∈ args, arg.Fits env.types has) :
    Typed env has given (releaseAll env args) state fun _ _ => True := by
  induction args generalizing state with
  | nil => exact .done fun _ => trivial
  | cons arg args ih =>
      refine (typed_release fun h => fits h arg List.mem_cons_self).andThen fun _ _ _ => ?_
      exact ih fun h other mem => fits h other (List.mem_cons_of_mem _ mem)

theorem typed_resultSlot (returns : TypeId) :
    Typed env has given (resultSlot env returns) state fun result _ => ∀ placed ∈ result,
      placed.1.Fits has ∧ placed.2.Fits env.types has ∧ placed.2.type = returns := by
  unfold resultSlot
  split
  · exact .done fun _ => by simp
  · refine typed_temp.bind fun slot _ _ => ?_
    refine (typed_emit _ ?_).bind fun _ _ _ => .done ?_
    · rintro ⟨_, isRegister⟩
      exact ⟨by simp [Instr.uses], by simpa [Instr.dest] using isRegister⟩
    · rintro ⟨⟨_, isRegister⟩, defined⟩ _ ⟨⟩
      have here : TypedOperand.Fits has ⟨.ptr ⟨env.types.ir returns⟩, slot⟩ :=
        .of_has isRegister (defined _ rfl)
      exact ⟨here, ⟨here, rfl⟩, rfl⟩

/-- A call gives a value of the type that its target says. -/
theorem typed_dispatch (callee : Callee) {args : List Value}
    (fits : given → ∀ arg ∈ args, arg.Fits env.types has) :
    Typed env has given (dispatch env callee args) state fun result _ => ∃ target,
      callee.bind env.types env.signatures (args.map (·.type)) = .ok target ∧
        ∀ value ∈ result, value.Fits env.types has ∧ value.type = target.returns := by
  refine (typed_ofExcept _).bind fun target _ _ => ?_
  refine (typed_passArgs fun h => fits h.1).bind fun passed _ _ => ?_
  refine (typed_resultSlot target.returns).bind fun result _ _ => ?_
  refine (typed_emit _ ?_).bind fun _ _ _ => ?_
  · rintro ⟨⟨_, operands, _⟩, placed⟩
    refine ⟨?_, by simp [Instr.dest]⟩
    intro use mem
    rcases List.mem_append.mp mem with arg | slot
    · exact operands use arg
    · obtain ⟨place, there, rfl⟩ := Option.map_eq_some_iff.mp (Option.mem_toList.mp slot)
      exact (placed place there).1
  refine (typed_releaseAll fun h => h.1.1.2.2).bind fun _ _ _ => .done ?_
  rintro ⟨⟨⟨⟨⟨_, bound⟩, _⟩, placed⟩, _⟩, _⟩
  refine ⟨target, bound, fun value mem => ?_⟩
  obtain ⟨place, there, rfl⟩ := Option.map_eq_some_iff.mp mem
  exact (placed place there).2

theorem typed_coerceToBool (faithful : env.Faithful) {value : Value}
    (fits : given → value.Fits env.types has) :
    Typed env has given (coerceToBool env value) state fun flag _ =>
      flag.Fits env.types has ∧ flag.type = Registry.bool := by
  unfold coerceToBool
  split
  · next eq => exact .done fun h => ⟨fits h, eq⟩
  · refine (typed_dispatch .boolean fun h => by simpa using fits h).bind fun result _ _ => ?_
    refine (typed_required result).mono id ?_
    rintro flag _ ⟨_, target, bound, found⟩ rfl
    obtain ⟨fits, type⟩ := found flag rfl
    exact ⟨fits, type.trans (bind_boolean faithful bound)⟩

/-- The operand of a truth value is a flag. -/
theorem typed_flag (faithful : env.Faithful) {value : Value}
    (fits : given → value.Fits env.types has ∧ value.type = Registry.bool) :
    Typed env has given (operandOf env value) state fun flag _ =>
      TypedOperand.Fits has ⟨.i1, flag⟩ := by
  refine (typed_operandOf fun h => (fits h).1).mono id fun flag _ h found => ?_
  rwa [(fits h).2, faithful.types.truth_ir] at found

theorem typed_negate (faithful : env.Faithful) {value : Value}
    (fits : given → value.Fits env.types has ∧ value.type = Registry.bool) :
    Typed env has given (negate env value) state fun result _ => result.Fits env.types has := by
  refine (typed_flag faithful fits).bind fun flag _ _ => ?_
  refine typed_temp.bind fun dest _ _ => ?_
  refine (typed_emit _ ?_).bind fun _ _ _ => .done ?_
  · rintro ⟨⟨_, flagged⟩, isRegister⟩
    refine ⟨?_, by simpa [Instr.dest] using isRegister⟩
    simpa [Instr.uses, TypedOperand.Fits] using flagged
  · rintro ⟨⟨_, isRegister⟩, defined⟩
    refine ⟨?_, rfl⟩
    rw [Value.direct, faithful.types.truth_ir]
    exact TypedOperand.Fits.of_has isRegister (defined ⟨.i1, dest⟩ rfl)

/-! ## Forms of expressions -/

theorem typed_condition (faithful : env.Faithful) {test : Lowering Value}
    (typed : Typed env has given test state fun value _ => value.Fits env.types has) :
    Typed env has given (condition env test) state fun flag _ =>
      TypedOperand.Fits has ⟨.i1, flag⟩ := by
  refine typed.bind fun value _ _ => ?_
  refine (typed_coerceToBool faithful And.right).bind fun flag _ _ => ?_
  exact typed_flag faithful And.right

theorem typed_checkArgument (entry : MethodEntry) (found : TypeId) :
    Typed env has given (checkArgument env entry found) state fun _ _ => True := by
  unfold checkArgument
  split
  · exact .done fun _ => trivial
  · refine (typed_ofExcept _).bind fun expected _ _ => ?_
    split
    · exact .fails
    · exact .done fun _ => trivial

theorem typed_binary (faithful : env.Faithful) (op : BinaryOperator) {left right : Lowering Value}
    (typed : Typed env has given left state fun value _ => value.Fits env.types has)
    (typed' : ∀ later, Typed env has given right later fun value _ => value.Fits env.types has) :
    Typed env has given (binary env op left right) state fun value _ =>
      value.Fits env.types has := by
  refine typed.bind fun l _ _ => ((typed' _).under And.left).bind fun r _ _ => ?_
  split
  · exact .fails
  · refine (typed_checkArgument _ _).andThen fun _ _ _ => ?_
    refine (@typed_dispatch env has _ _ (.method l.type op.method) [l, r] ?_).bind
      fun result _ _ => ?_
    · rintro ⟨⟨_, fits⟩, fits'⟩
      simpa using ⟨fits, fits'⟩
    refine (typed_required result).bind fun value _ _ => ?_
    split
    · next negated =>
        refine typed_negate faithful ?_
        rintro ⟨⟨_, target, bound, found⟩, rfl⟩
        obtain ⟨fits, type⟩ := found value rfl
        refine ⟨fits, type.trans (bindMethod_truth faithful.types ?_ bound)⟩
        simp [negated, BinaryOperator.method]
    · refine .done ?_
      rintro ⟨⟨_, target, bound, found⟩, rfl⟩
      exact (found value rfl).1

theorem typed_joinAddresses (type : TypeId) {first second : Operand × Binding × BlockId}
    (places : given → TypedOperand.Fits has ⟨.ptr ⟨env.types.ir type⟩, first.1⟩ ∧
      TypedOperand.Fits has ⟨.ptr ⟨env.types.ir type⟩, second.1⟩)
    (owners : given → first.2.1.Fits has ∧ second.2.1.Fits has) :
    Typed env has given (joinAddresses env type first second) state fun value _ =>
      value.Fits env.types has := by
  refine (typed_valueIr type).bind fun ir _ _ => ?_
  refine typed_temp.bind fun dest _ _ => ?_
  refine (typed_emit _ ?_).bind fun _ _ _ => ?_
  · rintro ⟨⟨h, rfl⟩, isRegister⟩
    refine ⟨?_, by simpa [Instr.dest] using isRegister⟩
    simpa [Instr.uses] using places h
  refine (typed_mergeBinding type fun h => owners h.1.1.1).bind fun binding _ _ => .done ?_
  rintro ⟨⟨⟨⟨_, rfl⟩, isRegister⟩, defined⟩, owner⟩
  exact ⟨TypedOperand.Fits.of_has isRegister (defined _ rfl), owner⟩

theorem fits_branch (connective : Connective) {flag : Operand}
    (fits : TypedOperand.Fits has ⟨.i1, flag⟩) (right skip : BlockId) (returned : Option IrType) :
    (connective.branch flag right skip).Fits has returned := by
  cases connective <;> exact fits_condBr fits _ _ _

/-- The blocks where a form with several ways goes on are there. -/
def Placed (state : FunctionState) (skip join : BlockId) : Prop :=
  skip < state.builder.blocks.length ∧ join < state.builder.blocks.length

theorem typed_connectAlike {left right : Value} {skip join : BlockId}
    (fits : given → left.Fits env.types has ∧ right.Fits env.types has)
    (alike : right.type = left.type) (placed : given → Placed state skip join) :
    Typed env has given (connectAlike env left right skip join) state fun value _ =>
      value.Fits env.types has := by
  refine (typed_obtainAddress fun h => (fits h).2).bind fun obtained _ grows₁ => ?_
  refine (typed_release fun h => (fits h.1).1).andThen fun _ _ grows₂ => ?_
  refine typed_currentBlock.andThen fun rightEnd _ grows₃ => ?_
  refine (typed_br _).andThen fun _ _ grows₄ => ?_
  have grows := ((grows₁.trans grows₂).trans grows₃).trans grows₄
  refine (typed_switchTo _ fun h => Nat.lt_of_lt_of_le (placed h.1).1 grows.size).andThen
    fun _ _ grows₅ => ?_
  refine (typed_obtainAddress fun h => (fits h.1).1).bind fun obtained' _ grows₆ => ?_
  refine (typed_br _).andThen fun _ _ grows₇ => ?_
  have grows := ((grows.trans grows₅).trans grows₆).trans grows₇
  refine (typed_switchTo _ fun h => Nat.lt_of_lt_of_le (placed h.1.1).2 grows.size).andThen
    fun _ _ _ => ?_
  refine typed_joinAddresses _ ?_ ?_
  · rintro ⟨⟨h, atRight⟩, atLeft⟩
    rw [atLeft.sameType]
    exact ⟨atLeft.at_type, alike ▸ atRight.at_type⟩
  · rintro ⟨⟨h, _⟩, atLeft⟩
    exact ⟨atLeft.fits.binding, (fits h).2.binding⟩

theorem typed_connectFlags (faithful : env.Faithful) {left right : Value} {leftFlag : Operand}
    {skip join : BlockId}
    (fits : given → left.Fits env.types has ∧ right.Fits env.types has)
    (flagged : given → TypedOperand.Fits has ⟨.i1, leftFlag⟩)
    (placed : given → Placed state skip join) :
    Typed env has given (connectFlags env left right leftFlag skip join) state fun value _ =>
      value.Fits env.types has := by
  refine (typed_coerceToBool faithful fun h => (fits h).2).bind fun truth _ grows₁ => ?_
  refine (typed_flag faithful And.right).bind fun rightFlag _ grows₂ => ?_
  refine typed_currentBlock.andThen fun rightEnd _ grows₃ => ?_
  refine (typed_br _).andThen fun _ _ grows₄ => ?_
  have grows := ((grows₁.trans grows₂).trans grows₃).trans grows₄
  refine (typed_switchTo _ fun h => Nat.lt_of_lt_of_le (placed h.1.1).1 grows.size).andThen
    fun _ _ grows₅ => ?_
  refine (typed_br _).andThen fun _ _ grows₆ => ?_
  have grows := (grows.trans grows₅).trans grows₆
  refine (typed_switchTo _ fun h => Nat.lt_of_lt_of_le (placed h.1.1).2 grows.size).andThen
    fun _ _ _ => ?_
  refine typed_temp.bind fun dest _ _ => ?_
  refine (typed_emit _ ?_).bind fun _ _ _ => ?_
  · rintro ⟨⟨⟨h, _⟩, atRight⟩, isRegister⟩
    refine ⟨?_, by simpa [Instr.dest] using isRegister⟩
    simpa [Instr.uses] using ⟨flagged h, atRight⟩
  refine (typed_release fun h => (fits h.1.1.1.1).1).bind fun _ _ _ => .done ?_
  rintro ⟨⟨⟨_, isRegister⟩, defined⟩, _⟩
  refine ⟨?_, rfl⟩
  rw [Value.direct, faithful.types.truth_ir]
  exact TypedOperand.Fits.of_has isRegister (defined ⟨.i1, dest⟩ rfl)

theorem typed_connect (faithful : env.Faithful) (connective : Connective)
    {left right : Lowering Value}
    (typed : Typed env has given left state fun value _ => value.Fits env.types has)
    (typed' : ∀ later, Typed env has given right later fun value _ => value.Fits env.types has) :
    Typed env has given (connect env connective left right) state fun value _ =>
      value.Fits env.types has := by
  refine typed.bind fun l _ _ => ?_
  refine (typed_coerceToBool faithful fun h => h.2.borrowed).bind fun truth _ _ => ?_
  refine (typed_flag faithful And.right).bind fun flag _ _ => ?_
  refine (typed_newBlock _).bind fun rightBlock _ _ => ?_
  refine (typed_newBlock _).bind fun skip _ grows₁ => ?_
  refine (typed_newBlock _).bind fun join _ grows₂ => ?_
  refine (typed_terminate _ fun h => fits_branch connective h.1.1.1.2 _ _ _).andThen
    fun _ _ grows₃ => ?_
  refine (typed_switchTo _ fun h => ?_).andThen fun _ _ grows₄ => ?_
  · exact Nat.lt_of_lt_of_le h.1.1.2 ((grows₁.trans grows₂).trans grows₃).size
  refine ((typed' _).under fun h => h.1.1.1.1.1.1).bind fun r last grows₅ => ?_
  have grows := (grows₃.trans grows₄).trans grows₅
  have placed : skip < _ ∧ join < _ → Placed last skip join := fun ⟨skipLt, joinLt⟩ =>
    ⟨Nat.lt_of_lt_of_le skipLt (grows₂.trans grows).size, Nat.lt_of_lt_of_le joinLt grows.size⟩
  split
  · next alike =>
      exact typed_connectAlike (fun h => ⟨h.1.1.1.1.1.1.2, h.2⟩) alike
        fun h => placed ⟨h.1.1.2, h.1.2⟩
  · exact typed_connectFlags faithful (fun h => ⟨h.1.1.1.1.1.1.2, h.2⟩) (fun h => h.1.1.1.1.2)
      fun h => placed ⟨h.1.1.2, h.1.2⟩

theorem typed_choose {test : Lowering Operand} {onTrue onFalse : Lowering Value}
    (tested : Typed env has given test state fun flag _ => TypedOperand.Fits has ⟨.i1, flag⟩)
    (typed : ∀ later, Typed env has given onTrue later fun value _ => value.Fits env.types has)
    (typed' : ∀ later, Typed env has given onFalse later fun value _ =>
      value.Fits env.types has) :
    Typed env has given (choose env test onTrue onFalse) state fun value _ =>
      value.Fits env.types has := by
  refine tested.bind fun flag _ _ => ?_
  refine (typed_newBlock _).bind fun trueBlock _ _ => ?_
  refine (typed_newBlock _).bind fun falseBlock _ grows₁ => ?_
  refine (typed_newBlock _).bind fun fin _ grows₂ => ?_
  refine (typed_terminate _ fun h => fits_condBr h.1.1.1.2 _ _ _).andThen fun _ _ grows₃ => ?_
  refine (typed_switchTo _ fun h => ?_).andThen fun _ _ grows₄ => ?_
  · exact Nat.lt_of_lt_of_le h.1.1.2 ((grows₁.trans grows₂).trans grows₃).size
  refine ((typed _).under fun h => h.1.1.1.1).bind fun a _ grows₅ => ?_
  refine (typed_obtainAddress And.right).bind fun placeA _ grows₆ => ?_
  refine typed_currentBlock.andThen fun trueEnd _ grows₇ => ?_
  refine (typed_br _).andThen fun _ _ grows₈ => ?_
  have grows := ((((grows₃.trans grows₄).trans grows₅).trans grows₆).trans grows₇).trans grows₈
  refine (typed_switchTo _ fun h => ?_).andThen fun _ _ grows₉ => ?_
  · exact Nat.lt_of_lt_of_le h.1.1.1.2 (grows₂.trans grows).size
  refine ((typed' _).under fun h => h.1.1.1.1.1.1).bind fun b _ grows₁₀ => ?_
  split
  · exact .fails_bind
  · next same =>
      refine (typed_obtainAddress And.right).bind fun placeB _ grows₁₁ => ?_
      refine typed_currentBlock.andThen fun falseEnd _ grows₁₂ => ?_
      refine (typed_br _).andThen fun _ _ grows₁₃ => ?_
      have grows := ((((grows.trans grows₉).trans grows₁₀).trans grows₁₁).trans grows₁₂).trans
        grows₁₃
      refine (typed_switchTo _ fun h => ?_).andThen fun _ _ _ => ?_
      · exact Nat.lt_of_lt_of_le h.1.1.1.1.2 grows.size
      refine typed_joinAddresses _ ?_ ?_
      · rintro ⟨⟨⟨_, atTrue⟩, _⟩, atFalse⟩
        have there := atFalse.at_type
        rw [not_ne_iff.mp same] at there
        exact ⟨atTrue.sameType ▸ atTrue.at_type, there⟩
      · rintro ⟨⟨⟨_, atTrue⟩, _⟩, atFalse⟩
        exact ⟨atTrue.fits.binding, atFalse.fits.binding⟩

theorem typed_element (faithful : env.Faithful) {container position : Lowering Value}
    (typed : Typed env has given container state fun value _ => value.Fits env.types has)
    (typed' : ∀ later, Typed env has given position later fun value _ =>
      value.Fits env.types has) :
    Typed env has given (element env container position) state fun value _ =>
      value.Fits env.types has := by
  refine typed.bind fun c _ _ => ?_
  split
  · exact .fails
  · next element indexed =>
      refine ((typed' _).under And.left).bind fun p _ _ => ?_
      split
      · exact .fails_bind
      refine (typed_valueIr element).bind fun ir _ _ => ?_
      refine (typed_operandOf fun h => h.1.1.2).bind fun base _ _ => ?_
      refine (typed_obtainValue fun h => h.1.1.2).bind fun offset _ _ => ?_
      refine typed_temp.bind fun dest _ _ => ?_
      refine (typed_emit _ ?_).bind fun _ _ _ => ?_
      · rintro ⟨⟨⟨⟨_, rfl⟩, based⟩, got⟩, isRegister⟩
        refine ⟨?_, by simpa [Instr.dest] using isRegister⟩
        rw [faithful.types.elements c.type element indexed] at based
        simpa [Instr.uses] using ⟨based, got.operand⟩
      refine (typed_release fun h => h.1.1.2.fits).andThen fun _ _ _ => .done ?_
      rintro ⟨⟨⟨⟨⟨_, rfl⟩, _⟩, _⟩, isRegister⟩, defined⟩
      exact ⟨TypedOperand.Fits.of_has isRegister (defined _ rfl), rfl⟩

theorem typed_call {callee : String} {args : Lowering (List Value)}
    (typed : ∀ later, Typed env has given args later fun values _ =>
      ∀ value ∈ values, value.Fits env.types has) :
    Typed env has given (call env callee args) state fun result _ =>
      ∀ value ∈ result, value.Fits env.types has := by
  refine (typed_ofExcept _).bind fun target _ _ => ?_
  refine ((typed _).under And.left).bind fun values _ _ => ?_
  refine (typed_dispatch target And.right).mono id ?_
  rintro result _ _ ⟨_, _, found⟩ value mem
  exact (found value mem).1

/-! ## Expressions -/

/-- The value of an expression that is used. -/
theorem typed_used {step : Lowering (Option Value)}
    (typed : Typed env has given step state fun result _ =>
      ∀ value ∈ result, value.Fits env.types has) :
    Typed env has given (step >>= required) state fun value _ => value.Fits env.types has := by
  refine typed.bind fun result _ _ => (typed_required result).mono id ?_
  rintro value _ ⟨_, fits⟩ rfl
  exact fits value rfl

/-- A step whose value is always there. -/
theorem typed_some {step : Lowering Value}
    (typed : Typed env has given step state fun value _ => value.Fits env.types has) :
    Typed env has given (some <$> step) state fun result _ =>
      ∀ value ∈ result, value.Fits env.types has := by
  refine typed.map ?_
  rintro _ _ _ fits _ ⟨⟩
  exact fits

mutual

/-- Lowering an expression uses operands at their types and gives a value that has its type. -/
theorem typed_operand? (faithful : env.Faithful) {state : FunctionState} (e : Expr) :
    Typed env has given (operand? env e) state fun result _ =>
      ∀ value ∈ result, value.Fits env.types has := by
  cases e with
  | bool value =>
      rw [operand?]
      exact typed_some (typed_literal _ (Pool.added_bool env.types · value))
  | int value =>
      rw [operand?]
      exact typed_some (typed_literal _ (Pool.added_int env.types · value))
  | float value =>
      rw [operand?]
      exact typed_some (typed_literal _ (Pool.added_float env.types · value))
  | string value =>
      rw [operand?]
      exact typed_some (typed_literal _ (Pool.added_string env.types · value))
  | name name =>
      rw [operand?]
      exact typed_some (typed_lookup name)
  | binary op left right =>
      rw [operand?]
      exact typed_some (typed_binary faithful op (typed_used (typed_operand? faithful left))
        fun _ => typed_used (typed_operand? faithful right))
  | not operand =>
      rw [operand?]
      refine typed_some ((typed_used (typed_operand? faithful operand)).bind fun value _ _ => ?_)
      refine (typed_coerceToBool faithful And.right).bind fun truth _ _ => ?_
      exact typed_negate faithful And.right
  | and left right =>
      rw [operand?]
      exact typed_some (typed_connect faithful .and (typed_used (typed_operand? faithful left))
        fun _ => typed_used (typed_operand? faithful right))
  | or left right =>
      rw [operand?]
      exact typed_some (typed_connect faithful .or (typed_used (typed_operand? faithful left))
        fun _ => typed_used (typed_operand? faithful right))
  | ternary test onTrue onFalse =>
      rw [operand?]
      exact typed_some (typed_choose
        (typed_condition faithful (typed_used (typed_operand? faithful test)))
        (fun _ => typed_used (typed_operand? faithful onTrue))
        fun _ => typed_used (typed_operand? faithful onFalse))
  | index container position =>
      rw [operand?]
      exact typed_some (typed_element faithful (typed_used (typed_operand? faithful container))
        fun _ => typed_used (typed_operand? faithful position))
  | call callee args =>
      rw [operand?]
      exact typed_call fun _ => typed_operands faithful args

theorem typed_operands (faithful : env.Faithful) {state : FunctionState} (es : List Expr) :
    Typed env has given (operands env es) state fun values _ =>
      ∀ value ∈ values, value.Fits env.types has := by
  cases es with
  | nil =>
      rw [operands]
      exact .done fun _ => by simp
  | cons first rest =>
      rw [operands]
      refine (typed_used (typed_operand? faithful first)).bind fun value _ _ => ?_
      refine ((typed_operands faithful rest).under And.left).bind fun values _ _ => .done ?_
      rintro ⟨⟨_, fits⟩, others⟩
      exact List.forall_mem_cons.mpr ⟨fits, others⟩

end

theorem typed_value (faithful : env.Faithful) (e : Expr) :
    Typed env has given (value env e) state fun value _ => value.Fits env.types has :=
  typed_used (typed_operand? faithful e)

theorem typed_effect (faithful : env.Faithful) (e : Expr) :
    Typed env has given (effect env e) state fun _ _ => True :=
  (typed_operand? faithful e).map fun _ _ _ _ => trivial

end Lowering

end LlvmBackend
