import LlvmBackend.Proofs.Code.Traces
import LlvmBackend.Proofs.Reference
import LlvmBackend.Proofs.Scopes
import LlvmBackend.Proofs.Translation

/-! # Translated code has the traces of its tree

The code of an expression has its traces by the reference semantics, for the types that names have
where it is lowered, and so has the code of statements.
-/

namespace LlvmBackend

open Ir Reference
open Lowering (Connective)

/-- What the lowering knows of names that the text tells. -/
def Names.typing (names : Names) : Typing := fun name =>
  { type := ((names.scopes.lookup name).map Value.type).getD Registry.void
    rebound := (names.scopes.lookupLocal name).isSome }

theorem Names.typing_define (names : Names) (name : String) (value : Value) :
    (names.define name value).typing = names.typing.bind name value.type := by
  funext asked
  simp only [Names.typing, Names.define, Scopes.lookup_define, Scopes.lookupLocal_define, Typing.bind]
  split <;> rfl

namespace Translation

variable {types : Registry} {env : Surroundings} {names : Names} {v w : Value}

/-! ## Values -/

theorem Loads.traces (loads : Loads types v code operand w) : code.traces = .one [] := by
  cases loads <;> rfl

theorem Places.traces (places : Places types v code address w) : code.traces = .one [] := by
  cases places with
  | addressed | cached => rfl
  | direct => exact Traces.nil_seq

theorem Passes.traces {operand : TypedOperand} (passes : Passes types v code operand w) :
    code.traces = .one [] := by
  cases passes with
  | byValue _ loads => exact loads.traces
  | byAddress _ places => exact places.traces

theorem PassesAll.traces {vs ws : List Value} {operands : List TypedOperand}
    (passes : PassesAll types vs code operands ws) : code.traces = .one [] := by
  induction passes with
  | nil => rfl
  | cons first _ ih => rw [Code.traces, first.traces, ih, Traces.nil_seq]

theorem Releases.traces (releases : Releases types v code) : code.traces = .one [] := by
  cases releases with
  | nothing | always => rfl
  | guarded => simp [Code.traces, Role.events, Traces.either_self]

theorem ReleasesAll.traces {vs : List Value} (releases : ReleasesAll types vs code) :
    code.traces = .one [] := by
  induction releases with
  | nil => rfl
  | cons first _ ih => rw [Code.traces, first.traces, ih, Traces.nil_seq]

theorem Owners.traces {type : TypeId} {first second : Binding × BlockId} {binding : Binding}
    (owners : Owners types type first second code binding) : code.traces = .one [] := by
  cases owners <;> rfl

theorem Joins.traces {type : TypeId} {first second : Operand × Binding × BlockId}
    (joins : Joins types type first second code v) : code.traces = .one [] ∧ v.type = type := by
  cases joins with
  | intro _ owners =>
      refine ⟨?_, rfl⟩
      rw [Code.traces, owners.traces, Traces.seq_nil]
      rfl

/-! ## Calls -/

theorem calls_of_bind {callee : Callee} {args : List TypeId} {target : Target}
    (bound : callee.bind env.types env.signatures args = .ok target) :
    calls env.types env.signatures callee args = [.call target.symbol] ∧
      returns env.types env.signatures callee args = target.returns := by
  simp [calls, returns, target?, bound, Except.toOption]

/-- The type of a result that may be missing. -/
def resultType (vs : List Value) : TypeId := (vs.head?.map Value.type).getD Registry.void

/-- A call is observed, and its result has the type that the callee says. -/
theorem Dispatches.traces {callee : Callee} {args : List Value} {result : Option Value}
    (dispatches : Dispatches env callee args code result) :
    code.traces = .one (calls env.types env.signatures callee (args.map Value.type)) ∧
      returns env.types env.signatures callee (args.map Value.type) = resultType result.toList := by
  cases dispatches with
  | void bound passes eq releases =>
      obtain ⟨called, returned⟩ := calls_of_bind bound
      refine ⟨?_, returned.trans eq⟩
      rw [called]
      simp only [Code.traces, passes.traces, releases.traces, Traces.nil_seq, Traces.seq_nil]
      rfl
  | result bound passes _ releases =>
      obtain ⟨called, returned⟩ := calls_of_bind bound
      refine ⟨?_, returned⟩
      rw [called]
      simp only [Code.traces, passes.traces, releases.traces, Traces.nil_seq, Traces.seq_nil]
      exact Traces.nil_seq

theorem Coerces.traces (coerces : Coerces env v code w) :
    code.traces = .one (coercion env.types env.signatures v.type) := by
  cases coerces with
  | already isBool => simp [coercion, isBool, Code.traces]
  | calls notBool dispatches =>
      rw [dispatches.traces.1, coercion, if_neg notBool]
      rfl

theorem Tests.traces {flag : Operand} (tests : Tests env v code flag) :
    code.traces = .one (coercion env.types env.signatures v.type) := by
  cases tests with
  | intro coerces loads => rw [Code.traces, coerces.traces, loads.traces, Traces.seq_nil]

theorem Negates.traces (negates : Negates env v code w) :
    code.traces = .one [] ∧ w.type = Registry.bool := by
  cases negates with
  | intro loads =>
      refine ⟨?_, rfl⟩
      rw [Code.traces, loads.traces, Traces.nil_seq]
      rfl

theorem Operates.traces {op : BinaryOperator} {left right : Value}
    (operates : Operates env op left right code v) :
    code.traces = .one (calls env.types env.signatures (.method left.type op.method)
      [left.type, right.type]) ∧
    v.type = if op = .notEq then Registry.bool
      else returns env.types env.signatures (.method left.type op.method)
        [left.type, right.type] := by
  cases operates with
  | plain _ _ dispatches other =>
      obtain ⟨called, returned⟩ := dispatches.traces
      exact ⟨called, by rw [if_neg other]; exact returned.symm⟩
  | negated _ _ dispatches eq negates =>
      obtain ⟨silent, isBool⟩ := negates.traces
      refine ⟨?_, by rw [if_pos eq, isBool]⟩
      rw [Code.traces, dispatches.traces.1, silent, Traces.seq_nil]
      rfl

/-! ## Forms with several ways -/

theorem Decides.traces {connective : Connective} {left right : Value} {flag : Operand}
    {atRight : Code} (decides : Decides env connective left right flag atRight code v) :
    code.traces =
        (let onRight := atRight.traces.seq (.one (if right.type = left.type then []
          else coercion env.types env.signatures right.type))
        if connective = .and then .branch onRight (.one []) else .branch (.one []) onRight) ∧
      v.type = if right.type = left.type then left.type else Registry.bool := by
  cases decides with
  | alike same placesRight releases placesLeft _ joins =>
      obtain ⟨silent, type⟩ := joins.traces
      refine ⟨?_, by rw [type, if_pos same]⟩
      simp only [Code.traces, silent, Traces.seq_nil, Code.traces_sides, placesRight.traces,
        releases.traces, placesLeft.traces, if_pos same, decide_eq_true_eq]
  | flags differ tests releases =>
      refine ⟨?_, by rw [if_neg differ]; rfl⟩
      simp only [Code.traces, Traces.seq_nil, Code.traces_sides, tests.traces, releases.traces,
        if_neg differ, decide_eq_true_eq]
      exact Traces.seq_nil

theorem borrowed_type (v : Value) : v.borrowed.type = v.type := by
  unfold Value.borrowed
  split <;> rfl

theorem Connects.traces {connective : Connective} {left right : Value} {atLeft atRight : Code}
    (connects : Connects env connective left right atLeft atRight code v) :
    code.traces = (atLeft.traces.seq (.one (coercion env.types env.signatures left.type))).seq
        (let onRight := atRight.traces.seq (.one (if right.type = left.type then []
          else coercion env.types env.signatures right.type))
        if connective = .and then .branch onRight (.one []) else .branch (.one []) onRight) ∧
      v.type = if right.type = left.type then left.type else Registry.bool := by
  cases connects with
  | intro tests decides =>
      obtain ⟨branching, type⟩ := decides.traces
      refine ⟨?_, type⟩
      rw [Code.traces, Code.traces, tests.traces, branching, borrowed_type, Traces.seq_assoc]

theorem Chooses.traces {test onTrue onFalse : Value} {atTest atTrue atFalse : Code}
    (chooses : Chooses env test onTrue onFalse atTest atTrue atFalse code v) :
    code.traces = (atTest.traces.seq (.one (coercion env.types env.signatures test.type))).seq
        (.branch atTrue.traces atFalse.traces) ∧ v.type = onTrue.type := by
  cases chooses with
  | intro _ tests placesTrue placesFalse _ joins =>
      obtain ⟨silent, type⟩ := joins.traces
      refine ⟨?_, type⟩
      simp only [Code.traces, silent, Traces.seq_nil, Code.traces_sides, placesTrue.traces,
        placesFalse.traces, tests.traces, if_true]

theorem Indexes.traces {container position : Value} {atContainer atPosition : Code}
    (indexes : Indexes env container position atContainer atPosition code v) :
    code.traces = atContainer.traces.seq atPosition.traces ∧
      env.types.element container.type = some v.type := by
  cases indexes with
  | intro element _ _ loads loads' releases =>
      refine ⟨?_, element⟩
      simp only [Code.traces, loads.traces, loads'.traces, releases.traces, Traces.nil_seq,
        Traces.seq_nil]
      exact congrArg _ Traces.seq_nil

/-! ## Expressions -/

/-- Values have the types that the reference semantics gives. -/
def Phrase.HasTypes (env : Surroundings) (typing : Typing) (vs : List Value) : Phrase → Prop
  | .expr e => typeOf env.types env.signatures typing e = resultType vs
  | .exprs es => typesOf env.types env.signatures typing es = vs.map Value.type

/-- The traces by the reference semantics. -/
def Phrase.traces (env : Surroundings) (typing : Typing) : Phrase → Traces
  | .expr e => exprTraces env.types env.signatures typing e
  | .exprs es => exprsTraces env.types env.signatures typing es

@[simp] theorem hasTypes_expr {typing : Typing} {e : Expr} :
    (Phrase.expr e).HasTypes env typing [v] ↔
      typeOf env.types env.signatures typing e = v.type :=
  Iff.rfl

theorem Evaluates.hasTypes {phrase : Phrase} {vs : List Value}
    (evaluates : Evaluates env names phrase vs code) : phrase.HasTypes env names.typing vs := by
  induction evaluates with
  | @literal e type symbol eq =>
      rw [hasTypes_expr]
      cases e <;> simp_all [typeOf, literalType?, Value.constant]
  | name found => simp [typeOf, Names.typing, found]
  | binary _ _ operates ih₁ ih₂ =>
      rw [hasTypes_expr] at ih₁ ih₂ ⊢
      rw [typeOf, ih₁, ih₂, operates.traces.2]
  | not _ _ negates _ => exact negates.traces.2.symm
  | and _ _ connects ih₁ ih₂ | or _ _ connects ih₁ ih₂ =>
      rw [hasTypes_expr] at ih₁ ih₂ ⊢
      rw [typeOf, ih₁, ih₂, connects.traces.2]
  | ternary _ _ _ chooses _ ih _ =>
      rw [hasTypes_expr] at ih ⊢
      rw [typeOf, ih, chooses.traces.2]
  | index _ _ indexes ih _ =>
      rw [hasTypes_expr] at ih ⊢
      rw [typeOf, ih, indexes.traces.2]
      rfl
  | call resolved _ dispatches ih =>
      simp only [Phrase.HasTypes] at ih ⊢
      rw [typeOf, resolved, ih]
      exact dispatches.traces.2
  | nil => rfl
  | cons _ _ ih₁ ih₂ =>
      rw [hasTypes_expr] at ih₁
      rw [Phrase.HasTypes] at ih₂ ⊢
      rw [typesOf, ih₁, ih₂, List.map_cons]

/-- The code of expressions has their traces. -/
theorem Evaluates.traces {phrase : Phrase} {vs : List Value}
    (evaluates : Evaluates env names phrase vs code) :
    code.traces = phrase.traces env names.typing := by
  induction evaluates with
  | @literal e type symbol eq => cases e <;> first | rfl | cases eq
  | name => rfl
  | binary left right operates ih₁ ih₂ =>
      have type₁ := hasTypes_expr.mp left.hasTypes
      have type₂ := hasTypes_expr.mp right.hasTypes
      rw [Phrase.traces, exprTraces, type₁, type₂, Code.traces, Code.traces, ih₁, ih₂,
        operates.traces.1]
      rfl
  | not operand coerces negates ih =>
      have type := hasTypes_expr.mp operand.hasTypes
      rw [Phrase.traces, exprTraces, type, Code.traces, Code.traces, ih, coerces.traces,
        negates.traces.1, Traces.seq_nil]
      rfl
  | and left right connects ih₁ ih₂ | or left right connects ih₁ ih₂ =>
      have type₁ := hasTypes_expr.mp left.hasTypes
      have type₂ := hasTypes_expr.mp right.hasTypes
      rw [Phrase.traces, exprTraces, type₁, type₂, connects.traces.1, ih₁, ih₂]
      rfl
  | ternary test _ _ chooses ih₁ ih₂ ih₃ =>
      have type := hasTypes_expr.mp test.hasTypes
      rw [Phrase.traces, exprTraces, type, chooses.traces.1, ih₁, ih₂, ih₃]
      rfl
  | index _ _ indexes ih₁ ih₂ =>
      rw [Phrase.traces, exprTraces, indexes.traces.1, ih₁, ih₂]
      rfl
  | call resolved args dispatches ih =>
      have types := args.hasTypes
      rw [Phrase.HasTypes] at types
      rw [Phrase.traces, exprTraces, resolved, Code.traces, ih, dispatches.traces.1, ← types]
      rfl
  | nil => rfl
  | cons _ _ ih₁ ih₂ =>
      rw [Phrase.traces, exprsTraces, Code.traces, ih₁, ih₂]
      rfl

/-- The traces of a condition up to its branch. -/
theorem tested_traces {test : Expr} {atTest testing : Code} {flag : Operand}
    (evaluates : Evaluates env names (.expr test) [v] atTest) (tests : Tests env v testing flag) :
    (Code.seq atTest testing).traces =
      testTraces env.types env.signatures names.typing test := by
  rw [Code.traces, evaluates.traces, tests.traces, testTraces,
    hasTypes_expr.mp evaluates.hasTypes]
  rfl

/-! ## Statements -/

theorem SlotFor.traces {names' : Names} {name : String} {type : TypeId} {slot : Operand}
    (slotFor : SlotFor types names name type slot code names') :
    code.traces = .one [] ∧ names'.typing = names.typing := by
  cases slotFor with
  | reused | new => exact ⟨rfl, rfl⟩

theorem Leaves.traces {value : Option Expr} (leaves : Leaves env names value code) :
    code.traces = stmtTraces env.types env.signatures names.typing (.ret value) := by
  cases leaves with
  | bare => rfl
  | dropped _ evaluates =>
      rw [Code.traces, evaluates.traces]
      rfl
  | result _ _ evaluates loads =>
      rw [Code.traces, Code.traces, Code.traces, evaluates.traces, loads.traces, Traces.nil_seq]
      exact congrArg _ Traces.nil_seq

/-- The traces of work by the reference semantics, and the types of names behind it. -/
def Work.traces (env : Surroundings) (typing : Typing) : Work → Traces
  | .stmt statement => stmtTraces env.types env.signatures typing statement
  | .suite statements => suiteTraces env.types env.signatures typing statements
  | .arms _ conditions => armsTraces env.types env.signatures typing conditions

/-- What work binds. -/
def Work.bindings (env : Surroundings) (typing : Typing) : Work → Bindings
  | .stmt statement => stmtBindings env.types env.signatures typing statement
  | .suite statements => suiteBindings env.types env.signatures typing statements
  | .arms _ conditions => armsBindings env.types env.signatures typing conditions

/-- Only a statement that returns keeps what comes behind it from being lowered. -/
theorem Lowers.isReturn {stmt : Stmt} {names' : Names} {ended : Bool}
    (lowers : Lowers env (.stmt stmt) names names' ended code) : ended = isReturn stmt := by
  cases lowers <;> rfl

/-- Control does not get behind a statement that returns. -/
theorem stmtTraces_of_isReturn {typing : Typing} {stmt : Stmt} (h : Reference.isReturn stmt)
    (trace : List Event) : ¬ stmtTraces env.types env.signatures typing stmt trace false := by
  cases stmt with
  | ret value =>
      cases value with
      | none => simp [stmtTraces, Traces.leaves]
      | some value => simp [stmtTraces, Traces.seq, Traces.leaves]
  | _ => cases h

theorem elementOf_eq {source element : TypeId} {entry : MethodEntry}
    (found : env.types.method source Lowering.next = some entry)
    (resolved : env.types.resolve entry.returns = .ok element) :
    elementOf env.types source = element := by
  have found : env.types.method source "__next__" = some entry := found
  simp [elementOf, found, resolved, Except.toOption]

/-- What is known of names behind work is what the reference semantics says. -/
theorem Lowers.typing {work : Work} {names' : Names} {ended : Bool}
    (lowers : Lowers env work names names' ended code) :
    names'.typing = names.typing.bindAll (work.bindings env names.typing) := by
  induction lowers with
  | assign evaluates loads slotFor =>
      rw [Names.typing_define, slotFor.traces.2, Work.bindings, stmtBindings,
        hasTypes_expr.mp evaluates.hasTypes]
      rfl
  | noArms => rfl
  | ifChain _ ih => exact ih
  | whileLoop _ _ _ ih => exact ih
  | forLoop evaluates found resolved _ slotFor _ _ _ ih =>
      rw [ih, Names.typing_define, slotFor.traces.2, Work.bindings, Work.bindings, stmtBindings,
        hasTypes_expr.mp evaluates.hasTypes, elementOf_eq found resolved]
      rfl
  | ret | effect => rfl
  | nil => rfl
  | ends first ih =>
      rw [ih, Work.bindings, Work.bindings, suiteBindings, ← first.isReturn, if_pos rfl,
        List.append_nil]
  | goesOn first _ ih₁ ih₂ =>
      rw [Work.bindings, suiteBindings, ← first.isReturn, if_neg (by simp), Typing.bindAll_append,
        ih₂, ih₁]
      rfl
  | otherwise _ ih => exact ih
  | lastArm _ _ _ ih =>
      rw [ih, Work.bindings, Work.bindings, armsBindings, armsBindings, List.append_nil]
  | arm _ _ _ _ ih₁ ih₂ =>
      rw [ih₂, ih₁, Work.bindings, Work.bindings, Work.bindings, armsBindings,
        Typing.bindAll_append]

/-- The code of statements has their traces. -/
theorem Lowers.traces {work : Work} {names' : Names} {ended : Bool}
    (lowers : Lowers env work names names' ended code) :
    code.traces = work.traces env names.typing := by
  induction lowers with
  | assign evaluates loads slotFor =>
      simp only [Code.traces, evaluates.traces, loads.traces, slotFor.traces.1, Traces.nil_seq]
      rfl
  | noArms => exact Traces.seq_nil
  | ifChain _ ih => exact ih
  | whileLoop evaluates tests _ ih =>
      rw [Code.traces, Code.traces, Code.traces, tested_traces evaluates tests,
        Code.traces_leading, ih, Traces.nil_seq]
      rfl
  | @forLoop names source v atSource entry element placing iterator v' target slot slotting names'
      stmts names'' ended turn releasing source' head body fin n turnEnd evaluates found resolved
      places slotFor _ _ releases ih =>
      have type := hasTypes_expr.mp evaluates.hasTypes
      have typing : (names'.define target (.stable element slot)).typing =
          names.typing.bind target (elementOf env.types v.type) := by
        rw [Names.typing_define, slotFor.traces.2, elementOf_eq found resolved]
        rfl
      have found : env.types.method v.type "__next__" = some entry := found
      simp only [Code.traces, evaluates.traces, places.traces, slotFor.traces.1, releases.traces,
        Code.traces_leading, ih, typing, Traces.nil_seq, Traces.seq_nil, Work.traces, stmtTraces,
        type, found]
      rfl
  | ret leaves => exact leaves.traces
  | effect evaluates => exact evaluates.traces
  | nil => rfl
  | ends first ih =>
      rw [ih, Work.traces, Work.traces, suiteTraces, Traces.seq_of_leaves]
      exact stmtTraces_of_isReturn first.isReturn.symm
  | goesOn first _ ih₁ ih₂ =>
      rw [Code.traces, ih₁, ih₂, first.typing]
      rfl
  | otherwise _ ih =>
      rw [Code.traces_leading, ih]
      rfl
  | lastArm evaluates tests _ ih =>
      rw [Code.traces, tested_traces evaluates tests, Code.traces, if_neg (by simp),
        Code.traces_leading, ih]
      rfl
  | arm evaluates tests first _ ih₁ ih₂ =>
      rw [Code.traces, tested_traces evaluates tests, Code.traces, if_neg (by simp),
        Code.traces_leading, ih₁, ih₂, first.typing]
      rfl

end Translation

end LlvmBackend
