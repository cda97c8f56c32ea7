import LlvmBackend.Proofs.Checker
import LlvmBackend.Proofs.Translation.Traces
import LlvmBackend.Proofs.Yields

/-! # What is lowered is well typed

Where code stands for a tree, the tree has the types of the values that the code computes.
-/

namespace LlvmBackend

open Ir Checker
open Lowering (Connective)

/-- The types of the names that are bound. -/
def Scopes.types (scopes : Scopes Value) : Env := fun name => (scopes.lookup name).map Value.type

theorem Scopes.types_define (scopes : Scopes Value) (name : String) (value : Value) :
    (scopes.define name value).types = scopes.types.bind name value.type := by
  funext asked
  simp only [types, lookup_define, Env.bind]
  split <;> rfl

namespace Names

/-- The types of the names that are bound. -/
def types (names : Names) : Env := names.scopes.types

/-- No name stands for a value of type `void`. -/
def Valued (names : Names) : Prop :=
  ∀ name value, names.scopes.lookup name = some value → value.type ≠ Registry.void

theorem types_define (names : Names) (name : String) (value : Value) :
    (names.define name value).types = names.types.bind name value.type :=
  names.scopes.types_define name value

theorem Valued.define {names : Names} (known : names.Valued) {name : String} {value : Value}
    (h : value.type ≠ Registry.void) : (names.define name value).Valued := by
  intro asked found eq
  simp only [Names.define, Scopes.lookup_define] at eq
  split at eq
  · cases eq
    exact h
  · exact known asked found eq

end Names

namespace Translation

variable {types : Registry} {env : Surroundings} {names : Names} {v w : Value}

/-! ## Values and calls -/

theorem Loads.valued (loads : Loads types v code operand w) : v.type ≠ Registry.void := by
  cases loads with
  | direct valued | cached valued | addressed valued => exact valued

/-- The result of a call has the type that the callee says, and a value is not `void`. -/
theorem Dispatches.callType {callee : Callee} {args : List Value} {result : Option Value}
    (dispatches : Dispatches env callee args code result) :
    Checker.callType env.types env.signatures callee (args.map Value.type) =
        some (resultType result.toList) ∧
      ∀ value ∈ result, value.type ≠ Registry.void := by
  cases dispatches with
  | void bound _ eq _ =>
      refine ⟨?_, by simp⟩
      rw [Checker.callType, bound]
      exact congrArg some eq
  | result bound _ valued _ =>
      refine ⟨?_, by simpa [Value.temporary] using valued⟩
      rw [Checker.callType, bound]
      rfl

theorem Coerces.testable (coerces : Coerces env v code w) :
    testable env.types env.signatures v.type := by
  cases coerces with
  | already isBool => simp [Checker.testable, isBool]
  | calls _ dispatches =>
      obtain ⟨type, valued⟩ := dispatches.callType
      have valued := valued w rfl
      rw [List.map_cons, List.map_nil] at type
      simp [Checker.testable, type, resultType, Checker.valued, valued]

theorem Tests.testable {flag : Operand} (tests : Tests env v code flag) :
    testable env.types env.signatures v.type := by
  cases tests with
  | intro coerces _ => exact coerces.testable

theorem method_returns {type : TypeId} {name : String} {entry : MethodEntry} {args : List Value}
    (method : env.types.method type name = some entry)
    (dispatches : Dispatches env (.method type name) args code (some v)) :
    env.types.lookup entry.returns = some v.type ∧ v.type ≠ Registry.void := by
  obtain ⟨type, valued⟩ := dispatches.callType
  refine ⟨?_, valued v rfl⟩
  simp only [Checker.callType, Callee.bind, Callee.bindMethod, method] at type
  cases resolved : env.types.resolve entry.returns with
  | error error => simp [resolved, Except.toOption, Functor.map, Except.map] at type
  | ok found =>
      have eq : found = v.type := by
        simpa [resolved, Except.toOption, Functor.map, Except.map, resultType] using type
      exact Registry.resolve_eq_ok.mp (eq ▸ resolved)

theorem Operates.checks {op : BinaryOperator} {left right : Value}
    (operates : Operates env op left right code v) : ∃ entry result,
      env.types.method left.type op.method = some entry ∧
        (∀ argument ∈ entry.argument, env.types.lookup argument = some right.type) ∧
        env.types.lookup entry.returns = some result ∧ result ≠ Registry.void ∧
        v.type = if op = .notEq then Registry.bool else result := by
  cases operates with
  | @plain entry _ _ method accepts dispatches other =>
      obtain ⟨returns, valued⟩ := method_returns method dispatches
      refine ⟨entry, _, method, fun argument mem => ?_, returns, valued, (if_neg other).symm⟩
      exact Registry.resolve_eq_ok.mp (accepts argument mem)
  | @negated entry _ u _ _ method accepts dispatches eq negates =>
      obtain ⟨returns, valued⟩ := method_returns method dispatches
      refine ⟨entry, _, method, fun argument mem => ?_, returns, valued, ?_⟩
      · exact Registry.resolve_eq_ok.mp (accepts argument mem)
      · rw [if_pos eq, negates.traces.2]

/-! ## Forms with several ways -/

theorem Connects.checks {connective : Connective} {left right : Value} {atLeft atRight : Code}
    (connects : Connects env connective left right atLeft atRight code v) :
    testable env.types env.signatures left.type ∧
      (right.type ≠ left.type → testable env.types env.signatures right.type) ∧
      v.type ≠ Registry.void := by
  cases connects with
  | intro tests decides =>
      have left := tests.testable
      rw [borrowed_type] at left
      cases decides with
      | alike same _ _ _ _ joins =>
          cases joins with
          | intro valued _ => exact ⟨left, fun differ => absurd same differ, valued⟩
      | flags _ tests' _ _ =>
          exact ⟨left, fun _ => tests'.testable, by simp [Value.direct, Registry.bool, Registry.void]⟩

/-! ## Expressions -/

/-- The values of expressions are not `void`. -/
theorem Evaluates.valued {phrase : Phrase} {vs : List Value} (known : names.Valued)
    (evaluates : Evaluates env names phrase vs code) : ∀ v ∈ vs, v.type ≠ Registry.void := by
  induction evaluates with
  | @literal e type symbol eq =>
      have : type ≠ Registry.void := by
        cases e <;> simp [literalType?] at eq
        all_goals simp [← eq, Registry.bool, Registry.int, Registry.float, Registry.string,
          Registry.void]
      simpa [Value.constant] using this
  | name found => simpa using known _ _ found
  | binary _ _ operates _ _ =>
      obtain ⟨_, result, _, _, _, valued, type⟩ := operates.checks
      rw [List.forall_mem_singleton, type]
      split
      · simp [Registry.bool, Registry.void]
      · exact valued
  | not _ _ negates _ =>
      rw [List.forall_mem_singleton, negates.traces.2]
      simp [Registry.bool, Registry.void]
  | and _ _ connects _ _ | or _ _ connects _ _ => simpa using connects.checks.2.2
  | ternary _ _ _ chooses _ _ _ =>
      cases chooses with
      | intro _ _ _ _ _ joins =>
          cases joins with
          | intro valued _ => simpa using valued
  | index _ _ indexes _ _ =>
      cases indexes with
      | intro _ _ valued _ _ _ => simpa [Value.stable] using valued
  | call _ _ dispatches _ => simpa using dispatches.callType.2
  | nil => simp
  | cons _ _ ih₁ ih₂ => exact List.forall_mem_cons.mpr ⟨ih₁ _ (List.mem_singleton_self _), ih₂⟩

/-- The checker gives the types of values. -/
def Phrase.Checks (env : Surroundings) (known : Env) (vs : List Value) : Phrase → Prop
  | .expr e => typeOf? env.types env.signatures known e = some (resultType vs)
  | .exprs es => typesOf? env.types env.signatures known es = some (vs.map Value.type)

theorem used_of_checks {e : Expr} {known : Env} (checks : (Phrase.expr e).Checks env known [v])
    (valued : v.type ≠ Registry.void) :
    (typeOf? env.types env.signatures known e >>= Checker.valued) = some v.type := by
  rw [Phrase.Checks] at checks
  rw [checks]
  simpa [resultType] using valued

/-- What code evaluates is well typed. -/
theorem Evaluates.checks {phrase : Phrase} {vs : List Value} (known : names.Valued)
    (evaluates : Evaluates env names phrase vs code) : phrase.Checks env names.types vs := by
  induction evaluates with
  | @literal e type symbol eq =>
      cases e <;> simp_all [Phrase.Checks, typeOf?, literalType?, Value.constant, resultType]
  | name found => simp [Phrase.Checks, typeOf?, Names.types, Scopes.types, found, resultType]
  | binary left right operates ih₁ ih₂ =>
      have left := used_of_checks ih₁ (left.valued known _ (List.mem_singleton_self _))
      have right := used_of_checks ih₂ (right.valued known _ (List.mem_singleton_self _))
      obtain ⟨entry, result, method, accepts, returns, valued, type⟩ := operates.checks
      have accepts := need_eq_some (u := ()).mpr accepts
      rw [Phrase.Checks, typeOf?, left, right]
      simp only [Option.bind_eq_bind, Option.bind_some, method, accepts, returns]
      simp [Checker.valued, valued, resultType, type]
  | not operand coerces negates ih =>
      have operand := used_of_checks ih (operand.valued known _ (List.mem_singleton_self _))
      rw [Phrase.Checks, typeOf?, operand]
      simp [need, coerces.testable, resultType, negates.traces.2]
  | and left right connects ih₁ ih₂ | or left right connects ih₁ ih₂ =>
      have left := used_of_checks ih₁ (left.valued known _ (List.mem_singleton_self _))
      have right := used_of_checks ih₂ (right.valued known _ (List.mem_singleton_self _))
      obtain ⟨testable, testable', _⟩ := connects.checks
      rw [Phrase.Checks, typeOf?, left, right, resultType, List.head?_cons, Option.map_some,
        connects.traces.2]
      split <;> simp_all [need]
  | ternary test onTrue onFalse chooses ih₁ ih₂ ih₃ =>
      have test := used_of_checks ih₁ (test.valued known _ (List.mem_singleton_self _))
      have onTrue := used_of_checks ih₂ (onTrue.valued known _ (List.mem_singleton_self _))
      have onFalse := used_of_checks ih₃ (onFalse.valued known _ (List.mem_singleton_self _))
      have type := chooses.traces.2
      cases chooses with
      | intro same tests _ _ _ _ =>
          rw [Phrase.Checks, typeOf?, test, onTrue, onFalse]
          simp [need, tests.testable, same, resultType, type]
  | index container position indexes ih₁ ih₂ =>
      have container := used_of_checks ih₁ (container.valued known _ (List.mem_singleton_self _))
      have position := used_of_checks ih₂ (position.valued known _ (List.mem_singleton_self _))
      have type := indexes.traces.2
      cases indexes with
      | intro indexed isInt valued _ _ _ =>
          rw [Phrase.Checks, typeOf?, container, position]
          simp [need, isInt, indexed, valued, resultType, Value.stable]
  | call resolved args dispatches ih =>
      rw [Phrase.Checks, typeOf?, resolved, ih]
      exact dispatches.callType.1
  | nil => rfl
  | cons first rest ih₁ ih₂ =>
      have first := used_of_checks ih₁ (first.valued known _ (List.mem_singleton_self _))
      rw [Phrase.Checks, typesOf?, first, ih₂]
      rfl

theorem Evaluates.used {e : Expr} (known : names.Valued)
    (evaluates : Evaluates env names (.expr e) [v] code) :
    used? env.types env.signatures names.types e = some v.type :=
  used_of_checks (evaluates.checks known) (evaluates.valued known v (List.mem_singleton_self v))

/-! ## Statements -/

theorem SlotFor.keeps {names' : Names} {name : String} {type : TypeId} {slot : Operand}
    (slotFor : SlotFor types names name type slot code names') :
    names'.types = names.types ∧ (names.Valued → names'.Valued) := by
  cases slotFor with
  | reused | new => exact ⟨rfl, id⟩

theorem tested_checks {test : Expr} {atTest testing : Code} {flag : Operand} (known : names.Valued)
    (evaluates : Evaluates env names (.expr test) [v] atTest) (tests : Tests env v testing flag) :
    checkTest env.types env.signatures names.types test = some () := by
  rw [checkTest, evaluates.used known]
  simp [need, tests.testable]

theorem Leaves.checks {value : Option Expr} (known : names.Valued)
    (leaves : Leaves env names value code) :
    checkReturn env.types env.signatures env.outcome names.types value = some () := by
  cases leaves with
  | bare outcome =>
      rw [checkReturn, need_eq_some]
      exact outcome.imp And.left And.left
  | dropped outcome evaluates =>
      rw [checkReturn, evaluates.checks known]
      simp only [Option.bind_eq_bind, Option.bind_some, need_eq_some]
      exact outcome.imp And.left fun h => .inl h.1
  | result outcome valued evaluates _ =>
      rw [checkReturn, evaluates.checks known]
      simp [need, outcome, valued, resultType]

/-- The checker accepts work. -/
def Work.check? (env : Surroundings) (known : Env) : Work → Option Env
  | .stmt statement => checkStmt env.types env.signatures env.outcome known statement
  | .suite statements => checkSuite env.types env.signatures env.outcome known statements
  | .arms _ conditions => checkArms env.types env.signatures env.outcome known conditions

theorem isReturn_eq (stmt : Stmt) : Checker.isReturn stmt = Reference.isReturn stmt := by
  cases stmt <;> rfl

/-- What is lowered is well typed, and names stand for values of the types that the checker
    knows. -/
theorem Lowers.checks {work : Work} {names' : Names} {ended : Bool} (known : names.Valued)
    (lowers : Lowers env work names names' ended code) :
    work.check? env names.types = some names'.types ∧ names'.Valued := by
  induction lowers with
  | assign evaluates loads slotFor =>
      rw [Names.types_define, slotFor.keeps.1, Work.check?, checkStmt, evaluates.used known]
      exact ⟨rfl, (slotFor.keeps.2 known).define loads.valued⟩
  | noArms => exact ⟨rfl, known⟩
  | ifChain _ ih => exact ih known
  | whileLoop evaluates tests _ ih =>
      rw [Work.check?, checkStmt, tested_checks known evaluates tests]
      exact ih known
  | @forLoop names source v atSource entry element placing iterator v' target slot slotting names'
      stmts names'' ended turn releasing source' head body fin n turnEnd evaluates found resolved
      places slotFor valued _ releases ih =>
      have there : elementOf? env.types v.type = some element := by
        have found : env.types.method v.type "__next__" = some entry := found
        rw [elementOf?, found]
        simpa [Registry.resolve_eq_ok.mp resolved] using valued
      have bound := ih ((slotFor.keeps.2 known).define valued)
      rw [Names.types_define, slotFor.keeps.1] at bound
      rw [Work.check?, checkStmt, evaluates.used known]
      simp only [Option.bind_eq_bind, Option.bind_some, there]
      exact bound
  | ret leaves =>
      rw [Work.check?, checkStmt, leaves.checks known]
      exact ⟨rfl, known⟩
  | effect evaluates =>
      rw [Work.check?, checkStmt, evaluates.checks known]
      exact ⟨rfl, known⟩
  | nil => exact ⟨rfl, known⟩
  | ends first ih =>
      obtain ⟨checked, known'⟩ := ih known
      refine ⟨?_, known'⟩
      simp only [Work.check?] at checked ⊢
      rw [checkSuite, checked, Option.bind_eq_bind, Option.bind_some, isReturn_eq,
        ← first.isReturn, if_pos rfl]
      rfl
  | goesOn first _ ih₁ ih₂ =>
      obtain ⟨checked, known'⟩ := ih₁ known
      obtain ⟨checked', known''⟩ := ih₂ known'
      refine ⟨?_, known''⟩
      simp only [Work.check?] at checked checked' ⊢
      rw [checkSuite, checked, Option.bind_eq_bind, Option.bind_some, isReturn_eq,
        ← first.isReturn, if_neg (by simp), checked']
  | otherwise _ ih => exact ih known
  | lastArm evaluates tests _ ih =>
      obtain ⟨checked, known'⟩ := ih known
      refine ⟨?_, known'⟩
      simp only [Work.check?] at checked ⊢
      rw [checkArms, tested_checks known evaluates tests, Option.bind_eq_bind, Option.bind_some,
        checked]
      rfl
  | arm evaluates tests first _ ih₁ ih₂ =>
      obtain ⟨checked, known'⟩ := ih₁ known
      obtain ⟨checked', known''⟩ := ih₂ known'
      refine ⟨?_, known''⟩
      simp only [Work.check?] at checked checked' ⊢
      rw [checkArms, tested_checks known evaluates tests, Option.bind_eq_bind, Option.bind_some,
        checked, Option.bind_eq_bind, Option.bind_some, checked']

end Translation

end LlvmBackend
