import LlvmBackend.Proofs.Checker.Sound
import LlvmBackend.Proofs.Lowering.Expr

/-! # Well-typed expressions are lowered

Where the checker gives a type, lowering finds nothing wrong and gives a value of that type. Whether
a block takes instructions plays no part: errors about that are no defects of the module.
-/

namespace LlvmBackend.Lowering

open Ir Checker
open Translation (resultType)

/-- With the given names, a step keeps the names and gives what is said, unless it fails because of
    the code that is already there. -/
def Passes {α : Type} (known : Scopes Value) (step : Lowering α) (post : α → Prop) : Prop :=
  ∀ state : FunctionState, state.scopes = known →
    match step state with
    | .ok value later => later.scopes = known ∧ post value
    | .error error _ => ¬ error.Proper

namespace Passes

variable {α β : Type} {known : Scopes Value} {post : α → Prop}

theorem done {value : α} (h : post value) : Passes known (pure value) post :=
  fun _ there => ⟨there, h⟩

theorem bind {step : Lowering α} {next : α → Lowering β} {post' : β → Prop}
    (first : Passes known step post) (goesOn : ∀ value, post value → Passes known (next value) post') :
    Passes known (step >>= next) post' := by
  intro state there
  have result := first state there
  cases eq : step state with
  | ok value later =>
      rw [eq] at result
      rw [bind_of_ok eq]
      exact goesOn value result.2 later result.1
  | error error later =>
      rw [eq] at result
      rw [bind_of_error eq]
      exact result

theorem mono {step : Lowering α} {post' : α → Prop} (h : Passes known step post)
    (le : ∀ value, post value → post' value) : Passes known step post' := by
  intro state there
  have result := h state there
  revert result
  cases step state with
  | ok value later => exact fun result => ⟨result.1, le value result.2⟩
  | error error later => exact id

/-- A first step of which nothing is needed later. -/
theorem andThen {step : Lowering α} {next : α → Lowering β} {post' : β → Prop}
    (first : Passes known step fun _ => True) (goesOn : ∀ value, Passes known (next value) post') :
    Passes known (step >>= next) post' :=
  first.bind fun value _ => goesOn value

theorem map {step : Lowering α} {change : α → β} {post' : β → Prop} (h : Passes known step post)
    (le : ∀ value, post value → post' (change value)) : Passes known (change <$> step) post' := by
  rw [map_eq_bind]
  exact h.bind fun value h => done (le value h)

end Passes

variable {known : Scopes Value}

/-! ## Steps that nothing is wrong with -/

theorem passes_get : Passes known (get : Lowering FunctionState) fun _ => True :=
  fun _ there => ⟨there, trivial⟩

/-- A change that leaves names alone. -/
theorem passes_modifyGet {α : Type} {change : FunctionState → α × FunctionState} {post : α → Prop}
    (same : ∀ state, (change state).2.scopes = state.scopes) (h : ∀ state, post (change state).1) :
    Passes known (modifyGet change : Lowering α) post :=
  fun state there => ⟨(same state).trans there, h state⟩

theorem passes_temp : Passes known temp fun _ => True :=
  (passes_modifyGet (fun _ => rfl) fun _ => trivial).andThen fun _ => .done trivial

theorem passes_newBlock (hint : String) : Passes known (newBlock hint) fun _ => True :=
  passes_modifyGet (fun _ => rfl) fun _ => trivial

theorem passes_switchTo (block : BlockId) : Passes known (switchTo block) fun _ => True :=
  passes_modifyGet (fun _ => rfl) fun _ => trivial

theorem passes_currentBlock : Passes known currentBlock fun _ => True :=
  passes_get.andThen fun _ => .done trivial

theorem passes_isTerminated : Passes known isTerminated fun _ => True :=
  passes_get.andThen fun _ => .done trivial

theorem passes_functionName : Passes known functionName fun _ => True :=
  passes_get.andThen fun _ => .done trivial

theorem passes_emit (instr : Instr) : Passes known (emit instr) fun _ => True := by
  intro state there
  rw [emit_eq]
  unfold Builder.emit Builder.modifyOpen
  cases state.builder.isTerminated with
  | true => exact id
  | false => exact ⟨there, trivial⟩

theorem passes_terminate (terminator : Terminator) :
    Passes known (terminate terminator) fun _ => True := by
  intro state there
  rw [terminate_eq]
  unfold Builder.terminate Builder.modifyOpen
  cases state.builder.isTerminated with
  | true => exact id
  | false => exact ⟨there, trivial⟩

theorem passes_branchIfOpen (target : BlockId) : Passes known (branchIfOpen target) fun _ => True := by
  refine passes_isTerminated.andThen fun ended => ?_
  cases ended with
  | false => exact passes_terminate _
  | true => exact .done trivial

/-! ## Steps that look at something -/

theorem ok_of_toOption {α : Type} {check : Except CodegenError α} {value : α}
    (eq : check.toOption = some value) : check = .ok value := by
  cases check with
  | error error => cases eq
  | ok found =>
      cases eq
      rfl

theorem passes_ofExcept {α : Type} {check : Except CodegenError α} {value : α}
    (eq : check = .ok value) : Passes known (ofExcept check) fun found => found = value := by
  subst eq
  exact .done rfl

theorem passes_lookup {name : String} {value : Value} (found : known.lookup name = some value) :
    Passes known (lookup name) fun result => result = value := by
  rintro state rfl
  simpa only [lookup, get_bind, found] using ⟨rfl, rfl⟩

variable {env : Surroundings} {type : TypeId}

/-! ## Values -/

theorem passes_valueIr (valued : type ≠ Registry.void) :
    Passes known (valueIr env type) fun _ => True := by
  simp only [valueIr, if_neg valued]
  exact .done trivial

theorem passes_obtainValue {value : Value} (valued : value.type ≠ Registry.void) :
    Passes known (obtainValue env value) fun result => result.2.type = value.type := by
  obtain ⟨type, storage, binding⟩ := value
  refine (passes_valueIr valued).andThen fun ir => ?_
  cases storage with
  | direct operand | cached address loaded => exact .done rfl
  | addressed address =>
      exact passes_temp.andThen fun _ => (passes_emit _).andThen fun _ => .done rfl

theorem passes_operandOf {value : Value} (valued : value.type ≠ Registry.void) :
    Passes known (operandOf env value) fun _ => True :=
  (passes_obtainValue valued).bind fun _ _ => .done trivial

theorem passes_obtainAddress {value : Value} (valued : value.type ≠ Registry.void) :
    Passes known (obtainAddress env value) fun result => result.2.type = value.type := by
  obtain ⟨type, storage, binding⟩ := value
  refine (passes_valueIr valued).andThen fun ir => ?_
  cases storage with
  | addressed address | cached address loaded => exact .done rfl
  | direct operand =>
      refine passes_temp.andThen fun _ => (passes_emit _).andThen fun _ => ?_
      exact (passes_emit _).andThen fun _ => .done rfl

/-! ## Ownership -/

theorem passes_guarded (flag : Nat) (instr : Instr) :
    Passes known (guarded flag instr) fun _ => True := by
  refine (passes_newBlock _).andThen fun _ => (passes_newBlock _).andThen fun _ => ?_
  refine (passes_terminate _).andThen fun _ => (passes_switchTo _).andThen fun _ => ?_
  refine (passes_emit _).andThen fun _ => (passes_terminate _).andThen fun _ => ?_
  exact passes_switchTo _

theorem passes_release (value : Value) : Passes known (release env value) fun _ => True := by
  unfold release
  split
  · exact .done trivial
  · split
    · exact passes_emit _
    · exact passes_guarded _ _
    · exact .done trivial
    · exact .done trivial

theorem passes_mergeBinding (type : TypeId) (first second : Binding × BlockId) :
    Passes known (mergeBinding env type first second) fun _ => True := by
  unfold mergeBinding
  split
  · exact .done trivial
  · simp only []
    split
    · exact .done trivial
    · refine Passes.andThen (passes_modifyGet (fun _ => rfl) fun _ => trivial) fun flag => ?_
      exact (passes_emit _).andThen fun _ => .done trivial

/-! ## Calls -/

theorem passes_passArgs {args : List Value} (valued : ∀ arg ∈ args, arg.type ≠ Registry.void) :
    Passes known (passArgs env args) fun _ => True := by
  induction args with
  | nil => exact .done trivial
  | cons arg args ih =>
      obtain ⟨first, rest⟩ := List.forall_mem_cons.mp valued
      have passed : Passes known (passArg env arg) fun _ => True := by
        unfold passArg
        split
        · exact (passes_obtainValue first).mono fun _ _ => trivial
        · exact (passes_obtainAddress first).mono fun _ _ => trivial
      exact passed.andThen fun _ => (ih rest).andThen fun _ => .done trivial

theorem passes_releaseAll (args : List Value) : Passes known (releaseAll env args) fun _ => True := by
  induction args with
  | nil => exact .done trivial
  | cons arg args ih => exact (passes_release arg).andThen fun _ => ih

theorem passes_resultSlot (returns : TypeId) :
    Passes known (resultSlot env returns) fun result =>
      resultType (result.map Prod.snd).toList = returns := by
  unfold resultSlot
  split
  · next void => exact .done void.symm
  · exact passes_temp.andThen fun _ => (passes_emit _).andThen fun _ => .done rfl

/-- What can be bound is called, and gives a result of the type that the checker says. -/
theorem passes_dispatch {callee : Callee} {args : List Value}
    (valued : ∀ arg ∈ args, arg.type ≠ Registry.void)
    (typed : callType env.types env.signatures callee (args.map Value.type) = some type) :
    Passes known (dispatch env callee args) fun result => resultType result.toList = type := by
  obtain ⟨target, bound, rfl⟩ := Option.map_eq_some_iff.mp typed
  refine (passes_ofExcept (ok_of_toOption bound)).bind ?_
  rintro _ rfl
  refine (passes_passArgs valued).andThen fun passed => ?_
  refine (passes_resultSlot _).bind fun result typed => ?_
  refine (passes_emit _).andThen fun _ => (passes_releaseAll _).andThen fun _ => ?_
  exact .done typed

/-- A value of a type that is not `void`. -/
def HasValue (type : TypeId) (value : Value) : Prop :=
  value.type = type ∧ type ≠ Registry.void

/-- A result of a type that is not `void` is a value. -/
theorem passes_requiredOf {result : Option Value} (typed : resultType result.toList = type)
    (valued : type ≠ Registry.void) : Passes known (required result) (HasValue type) := by
  cases result with
  | none => exact absurd typed.symm valued
  | some value => exact .done ⟨typed, valued⟩

theorem passes_coerceToBool {value : Value} (valued : value.type ≠ Registry.void)
    (tests : testable env.types env.signatures value.type) :
    Passes known (coerceToBool env value) fun flag => flag.type ≠ Registry.void := by
  unfold coerceToBool
  split
  · exact .done valued
  · next other =>
      obtain ⟨found, eq⟩ : ∃ found,
          (callType env.types env.signatures .boolean [value.type] >>= Checker.valued) =
            some found := by
        simpa [testable, other, Option.isSome_iff_exists] using tests
      obtain ⟨type, typed, used⟩ := Option.bind_eq_some_iff.mp eq
      obtain ⟨truthful, rfl⟩ := valued_eq_some.mp used
      refine (@passes_dispatch known env _ _ [value] (by simpa using valued) typed).bind
        fun result typed => ?_
      exact (passes_requiredOf typed truthful).mono fun flag found => found.1 ▸ found.2

theorem passes_negate {value : Value} (valued : value.type ≠ Registry.void) :
    Passes known (negate env value) fun result => result.type = Registry.bool := by
  refine (passes_operandOf valued).andThen fun flag => passes_temp.andThen fun dest => ?_
  exact (passes_emit _).andThen fun _ => .done rfl

/-! ## Forms of expressions -/

/-- A value of a type that can be tested. -/
theorem passes_condition {test : Lowering Value} (passes : Passes known test (HasValue type))
    (tests : testable env.types env.signatures type) :
    Passes known (condition env test) fun _ => True := by
  refine passes.bind ?_
  rintro value ⟨rfl, valued⟩
  exact (passes_coerceToBool valued tests).bind fun flag => passes_operandOf

theorem passes_checkArgument {entry : MethodEntry} {found : TypeId}
    (accepts : ∀ argument ∈ entry.argument, env.types.lookup argument = some found) :
    Passes known (checkArgument env entry found) fun _ => True := by
  unfold checkArgument
  cases named : entry.argument with
  | none => exact .done trivial
  | some argument =>
      refine (passes_ofExcept (Registry.resolve_eq_ok.mpr (accepts argument named))).bind ?_
      rintro _ rfl
      simpa using Passes.done trivial

theorem passes_binary {op : BinaryOperator} {left right : Lowering Value} {l r result : TypeId}
    {entry : MethodEntry} (passes : Passes known left (HasValue l))
    (passes' : Passes known right (HasValue r)) (method : env.types.method l op.method = some entry)
    (accepts : ∀ argument ∈ entry.argument, env.types.lookup argument = some r)
    (returns : env.types.lookup entry.returns = some result) (valued : result ≠ Registry.void) :
    Passes known (binary env op left right) fun value =>
      value.type = if op = .notEq then Registry.bool else result := by
  refine passes.bind ?_
  rintro left ⟨rfl, valuedLeft⟩
  refine passes'.bind ?_
  rintro right ⟨rfl, valuedRight⟩
  rw [method]
  refine (passes_checkArgument accepts).andThen fun _ => ?_
  have typed : callType env.types env.signatures (.method left.type op.method)
      ([left, right].map Value.type) = some result := by
    simp [callType, Callee.bind, Callee.bindMethod, method, Registry.resolve_eq_ok.mpr returns,
      Except.toOption, Functor.map, Except.map]
  refine (passes_dispatch (by simp [valuedLeft, valuedRight]) typed).bind fun found typed => ?_
  refine (passes_requiredOf typed valued).bind ?_
  rintro found ⟨rfl, _⟩
  split
  · exact passes_negate valued
  · exact .done rfl

theorem passes_joinAddresses (valued : type ≠ Registry.void)
    (first second : Operand × Binding × BlockId) :
    Passes known (joinAddresses env type first second) fun value => value.type = type := by
  refine (passes_valueIr valued).andThen fun ir => passes_temp.andThen fun dest => ?_
  refine (passes_emit _).andThen fun _ => (passes_mergeBinding _ _ _).andThen fun _ => ?_
  exact .done rfl

theorem passes_connectAlike {left right : Value} (alike : right.type = left.type)
    (valued : left.type ≠ Registry.void) (skip join : BlockId) :
    Passes known (connectAlike env left right skip join) fun value => value.type = left.type := by
  refine (passes_obtainAddress (alike ▸ valued)).bind fun rightPlace _ => ?_
  refine (passes_release _).andThen fun _ => passes_currentBlock.andThen fun rightEnd => ?_
  refine (passes_terminate _).andThen fun _ => (passes_switchTo _).andThen fun _ => ?_
  refine (passes_obtainAddress valued).bind fun leftPlace same => ?_
  refine (passes_terminate _).andThen fun _ => (passes_switchTo _).andThen fun _ => ?_
  exact same ▸ passes_joinAddresses (same ▸ valued) _ _

theorem passes_connectFlags {left right : Value} (valued : right.type ≠ Registry.void)
    (tests : testable env.types env.signatures right.type) (flag : Operand)
    (skip join : BlockId) :
    Passes known (connectFlags env left right flag skip join) fun value =>
      value.type = Registry.bool := by
  refine (passes_coerceToBool valued tests).bind fun truth truthful => ?_
  refine (passes_operandOf truthful).andThen fun _ => passes_currentBlock.andThen fun _ => ?_
  refine (passes_terminate _).andThen fun _ => (passes_switchTo _).andThen fun _ => ?_
  refine (passes_terminate _).andThen fun _ => (passes_switchTo _).andThen fun _ => ?_
  refine passes_temp.andThen fun dest => (passes_emit _).andThen fun _ => ?_
  exact (passes_release _).andThen fun _ => .done rfl

theorem passes_connect {connective : Connective} {left right : Lowering Value} {l r : TypeId}
    (passes : Passes known left (HasValue l)) (passes' : Passes known right (HasValue r))
    (tests : testable env.types env.signatures l)
    (tests' : r ≠ l → testable env.types env.signatures r) :
    Passes known (connect env connective left right) fun value =>
      value.type = if r = l then l else Registry.bool := by
  refine passes.bind ?_
  rintro left ⟨rfl, valued⟩
  refine (@passes_coerceToBool known env left.borrowed ?_ ?_).bind fun truth truthful => ?_
  · rwa [Translation.borrowed_type]
  · rwa [Translation.borrowed_type]
  refine (passes_operandOf truthful).andThen fun flag => ?_
  refine (passes_newBlock _).andThen fun rightBlock => (passes_newBlock _).andThen fun skip => ?_
  refine (passes_newBlock _).andThen fun join => (passes_terminate _).andThen fun _ => ?_
  refine (passes_switchTo _).andThen fun _ => passes'.bind ?_
  rintro right ⟨rfl, valued'⟩
  split
  · next alike => exact passes_connectAlike alike valued skip join
  · next differ => exact passes_connectFlags valued' (tests' differ) flag skip join

theorem passes_choose {test : Lowering Operand} {onTrue onFalse : Lowering Value}
    (tested : Passes known test fun _ => True) (passes : Passes known onTrue (HasValue type))
    (passes' : Passes known onFalse (HasValue type)) :
    Passes known (choose env test onTrue onFalse) fun value => value.type = type := by
  refine tested.andThen fun flag => (passes_newBlock _).andThen fun trueBlock => ?_
  refine (passes_newBlock _).andThen fun falseBlock => (passes_newBlock _).andThen fun fin => ?_
  refine (passes_terminate _).andThen fun _ => (passes_switchTo _).andThen fun _ => ?_
  refine passes.bind ?_
  rintro a ⟨rfl, valued⟩
  refine (passes_obtainAddress valued).bind fun placeA same => ?_
  refine passes_currentBlock.andThen fun _ => (passes_terminate _).andThen fun _ => ?_
  refine (passes_switchTo _).andThen fun _ => passes'.bind ?_
  rintro b ⟨eq, _⟩
  rw [if_neg (by simp [eq, same])]
  refine (passes_obtainAddress (eq ▸ valued)).bind fun placeB _ => ?_
  refine passes_currentBlock.andThen fun _ => (passes_terminate _).andThen fun _ => ?_
  refine (passes_switchTo _).andThen fun _ => ?_
  exact same ▸ passes_joinAddresses (same ▸ valued) _ _

theorem passes_element {container position : Lowering Value} {c element : TypeId}
    (passes : Passes known container (HasValue c))
    (passes' : Passes known position (HasValue Registry.int))
    (indexed : env.types.element c = some element) (valued : element ≠ Registry.void) :
    Passes known (Lowering.element env container position) fun value => value.type = element := by
  refine passes.bind ?_
  rintro container ⟨rfl, valuedContainer⟩
  rw [indexed]
  refine passes'.bind ?_
  rintro position ⟨isInt, valuedInt⟩
  rw [if_neg (by simp [isInt])]
  refine (passes_valueIr valued).andThen fun ir => ?_
  refine (passes_operandOf valuedContainer).andThen fun base => ?_
  refine (passes_obtainValue (isInt ▸ valuedInt)).bind fun offset _ => ?_
  refine passes_temp.andThen fun dest => (passes_emit _).andThen fun _ => ?_
  exact (passes_release _).andThen fun _ => .done rfl

/-! ## Expressions -/

/-- An expression whose value is used has one. -/
theorem passes_used {step : Lowering (Option Value)} {found : Option TypeId}
    (passes : ∀ type, found = some type →
      Passes known step fun result => resultType result.toList = type)
    (typed : (found >>= valued) = some type) :
    Passes known (step >>= required) (HasValue type) := by
  obtain ⟨_, eq, used⟩ := Option.bind_eq_some_iff.mp typed
  obtain ⟨valued, rfl⟩ := valued_eq_some.mp used
  exact (passes _ eq).bind fun result typed => passes_requiredOf typed valued

/-- A step whose value is always there. -/
theorem passes_some {step : Lowering Value} (passes : Passes known step fun value => value.type = type) :
    Passes known (some <$> step) fun result => resultType result.toList = type :=
  passes.map fun _ => id

mutual

/-- An expression to which the checker gives a type is lowered to a value of that type. -/
theorem passes_operand? (e : Expr) {type : TypeId}
    (typed : typeOf? env.types env.signatures known.types e = some type) :
    Passes known (operand? env e) fun result => resultType result.toList = type := by
  cases e with
  | bool value | int value | float value | string value =>
      cases typed
      rw [operand?]
      exact passes_some (passes_modifyGet (fun _ => rfl) fun _ => rfl)
  | name name =>
      obtain ⟨value, found, rfl⟩ := Option.map_eq_some_iff.mp typed
      rw [operand?]
      exact passes_some ((passes_lookup found).mono fun _ eq => congrArg Value.type eq)
  | binary op left right =>
      rw [typeOf?] at typed
      obtain ⟨l, leftTyped, typed⟩ := Option.bind_eq_some_iff.mp typed
      obtain ⟨r, rightTyped, typed⟩ := Option.bind_eq_some_iff.mp typed
      obtain ⟨entry, method, typed⟩ := Option.bind_eq_some_iff.mp typed
      obtain ⟨_, accepts, typed⟩ := Option.bind_eq_some_iff.mp typed
      obtain ⟨result, returned, typed⟩ := Option.bind_eq_some_iff.mp typed
      obtain ⟨_, returns, used⟩ := Option.bind_eq_some_iff.mp returned
      obtain ⟨valued, rfl⟩ := valued_eq_some.mp used
      cases typed
      rw [operand?]
      exact passes_some (passes_binary (passes_used (fun _ => passes_operand? left) leftTyped)
        (passes_used (fun _ => passes_operand? right) rightTyped) method
        (need_eq_some.mp accepts) returns valued)
  | not operand =>
      rw [typeOf?] at typed
      obtain ⟨tested, operandTyped, typed⟩ := Option.bind_eq_some_iff.mp typed
      obtain ⟨_, tests, typed⟩ := Option.bind_eq_some_iff.mp typed
      cases typed
      rw [operand?]
      refine passes_some ((passes_used (fun _ => passes_operand? operand) operandTyped).bind ?_)
      rintro value ⟨rfl, valued⟩
      exact (passes_coerceToBool valued (need_eq_some.mp tests)).bind fun _ => passes_negate
  | and left right | or left right =>
      rw [typeOf?] at typed
      obtain ⟨l, leftTyped, typed⟩ := Option.bind_eq_some_iff.mp typed
      obtain ⟨_, tests, typed⟩ := Option.bind_eq_some_iff.mp typed
      obtain ⟨r, rightTyped, typed⟩ := Option.bind_eq_some_iff.mp typed
      have ⟨tests', eq⟩ : (r ≠ l → testable env.types env.signatures r) ∧
          (if r = l then l else Registry.bool) = type := by
        split at typed
        · next alike =>
            cases typed
            exact ⟨fun differ => absurd alike differ, if_pos alike⟩
        · next differ =>
            obtain ⟨_, tests', typed⟩ := Option.bind_eq_some_iff.mp typed
            cases typed
            exact ⟨fun _ => need_eq_some.mp tests', if_neg differ⟩
      rw [operand?, ← eq]
      exact passes_some (passes_connect (passes_used (fun _ => passes_operand? left) leftTyped)
        (passes_used (fun _ => passes_operand? right) rightTyped) (need_eq_some.mp tests) tests')
  | ternary test onTrue onFalse =>
      rw [typeOf?] at typed
      obtain ⟨tested, testTyped, typed⟩ := Option.bind_eq_some_iff.mp typed
      obtain ⟨_, tests, typed⟩ := Option.bind_eq_some_iff.mp typed
      obtain ⟨a, trueTyped, typed⟩ := Option.bind_eq_some_iff.mp typed
      obtain ⟨b, falseTyped, typed⟩ := Option.bind_eq_some_iff.mp typed
      obtain ⟨_, same, typed⟩ := Option.bind_eq_some_iff.mp typed
      obtain rfl := need_eq_some.mp same
      cases typed
      rw [operand?]
      exact passes_some (passes_choose
        (passes_condition (passes_used (fun _ => passes_operand? test) testTyped)
          (need_eq_some.mp tests))
        (passes_used (fun _ => passes_operand? onTrue) trueTyped)
        (passes_used (fun _ => passes_operand? onFalse) falseTyped))
  | index container position =>
      rw [typeOf?] at typed
      obtain ⟨c, containerTyped, typed⟩ := Option.bind_eq_some_iff.mp typed
      obtain ⟨element, indexed, typed⟩ := Option.bind_eq_some_iff.mp typed
      obtain ⟨p, positionTyped, typed⟩ := Option.bind_eq_some_iff.mp typed
      obtain ⟨_, isInt, typed⟩ := Option.bind_eq_some_iff.mp typed
      obtain rfl := need_eq_some.mp isInt
      obtain ⟨valued, rfl⟩ := valued_eq_some.mp typed
      rw [operand?]
      exact passes_some (passes_element
        (passes_used (fun _ => passes_operand? container) containerTyped)
        (passes_used (fun _ => passes_operand? position) positionTyped) indexed valued)
  | call callee args =>
      rw [typeOf?] at typed
      obtain ⟨target, resolved, typed⟩ := Option.bind_eq_some_iff.mp typed
      obtain ⟨argTypes, argsTyped, typed⟩ := Option.bind_eq_some_iff.mp typed
      rw [operand?]
      refine (passes_ofExcept (ok_of_toOption resolved)).bind ?_
      rintro _ rfl
      refine (passes_operands args argsTyped).bind ?_
      rintro values ⟨rfl, valued⟩
      exact passes_dispatch valued typed

theorem passes_operands (es : List Expr) {found : List TypeId}
    (typed : typesOf? env.types env.signatures known.types es = some found) :
    Passes known (operands env es) fun values =>
      values.map Value.type = found ∧ ∀ value ∈ values, value.type ≠ Registry.void := by
  cases es with
  | nil =>
      cases typed
      rw [operands]
      exact .done (by simp)
  | cons first rest =>
      rw [typesOf?] at typed
      obtain ⟨type, firstTyped, typed⟩ := Option.bind_eq_some_iff.mp typed
      obtain ⟨types, restTyped, typed⟩ := Option.bind_eq_some_iff.mp typed
      cases typed
      rw [operands]
      refine (passes_used (fun _ => passes_operand? first) firstTyped).bind ?_
      rintro value ⟨rfl, valued⟩
      refine (passes_operands rest restTyped).bind ?_
      rintro values ⟨rfl, others⟩
      exact .done ⟨rfl, List.forall_mem_cons.mpr ⟨valued, others⟩⟩

end

theorem passes_value {e : Expr} (typed : used? env.types env.signatures known.types e = some type) :
    Passes known (value env e) (HasValue type) :=
  passes_used (fun _ => passes_operand? e) typed

theorem passes_effect {e : Expr}
    (typed : typeOf? env.types env.signatures known.types e = some type) :
    Passes known (effect env e) fun _ => True :=
  (passes_operand? e typed).map fun _ _ => trivial

end LlvmBackend.Lowering
