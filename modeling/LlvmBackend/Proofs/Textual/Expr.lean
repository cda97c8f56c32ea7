import LlvmBackend.Proofs.Lowering.Plain
import LlvmBackend.Proofs.Textual

/-! # Literals of expressions

Where the pool is the one behind the literals that come before an expression in the text, lowering the
expression gives the literals in it the constants that the text tells, and leaves the pool behind them.
-/

namespace LlvmBackend

open Pooled

/-- From the pool behind some literals, a step goes on to the pool behind some more, and another step
    does the same whatever the pool is. -/
def Recites (types : Registry) (before more : List Literal) {σ α : Type} [Pooled σ]
    (step textual : EStateM CodegenError σ α) (state : σ) : Prop :=
  pool state = Literal.pool types before →
    (∀ value later, step state = .ok value later → pool later = Literal.pool types (before ++ more)) ∧
      ∀ other, textual (withPool other state) = repool other (step state)

theorem Plain.recites {σ α : Type} [Pooled σ] {types : Registry} {before : List Literal}
    {step : EStateM CodegenError σ α} (plain : Plain types step) (state : σ) :
    Recites types before [] step step state := by
  intro there
  refine ⟨fun value later ran => ?_, plain.blind state⟩
  rw [plain.pool_eq ran, there, List.append_nil]

namespace Recites

variable {σ α β : Type} [Pooled σ] {types : Registry} {before more others : List Literal} {state : σ}
  {step textual : EStateM CodegenError σ α} {next next' : α → EStateM CodegenError σ β}

theorem done {value : α} : Recites types before [] (pure value) (pure value) state :=
  Plain.done.recites state

theorem bind (first : Recites types before more step textual state)
    (goesOn : ∀ value later, step state = .ok value later →
      Recites types (before ++ more) others (next value) (next' value) later) :
    Recites types before (more ++ others) (step >>= next) (textual >>= next') state := by
  intro there
  obtain ⟨adds, same⟩ := first there
  cases ran : step state with
  | error error later =>
      rw [bind_of_error ran]
      refine ⟨nofun, fun other => bind_of_error ?_⟩
      rw [same, ran]
      rfl
  | ok value later =>
      obtain ⟨adds', same'⟩ := goesOn value later ran (adds value later ran)
      rw [bind_of_ok ran, ← List.append_assoc]
      refine ⟨adds', fun other => (bind_of_ok ?_).trans (same' other)⟩
      rw [same, ran]
      rfl

/-- A step without literals before one with literals. -/
theorem silently (first : Recites types before [] step textual state)
    (goesOn : ∀ value later, step state = .ok value later →
      Recites types before more (next value) (next' value) later) :
    Recites types before more (step >>= next) (textual >>= next') state :=
  first.bind fun value later ran => (List.append_nil before).symm ▸ goesOn value later ran

/-- A plain step before one with literals. -/
theorem after (plain : Plain types step)
    (goesOn : ∀ value later, step state = .ok value later →
      Recites types before more (next value) (next' value) later) :
    Recites types before more (step >>= next) (step >>= next') state :=
  (plain.recites state).silently goesOn

/-- A step without literals behind one with literals. -/
theorem ends (first : Recites types before more step textual state)
    (goesOn : ∀ value later, step state = .ok value later →
      Recites types (before ++ more) [] (next value) (next' value) later) :
    Recites types before more (step >>= next) (textual >>= next') state := by
  have both := first.bind goesOn
  rwa [List.append_nil] at both

/-- A plain step behind one with literals. -/
theorem last (first : Recites types before more step textual state)
    (plain : ∀ value, Plain types (next value)) :
    Recites types before more (step >>= next) (textual >>= next) state :=
  first.ends fun value later _ => (plain value).recites later

theorem fails {error : CodegenError} :
    Recites types before more (throw error : EStateM CodegenError σ α) (throw error) state := by
  refine fun _ => ⟨?_, fun _ => rfl⟩
  rintro _ _ ⟨⟩

theorem map {change : α → β} (h : Recites types before more step textual state) :
    Recites types before more (change <$> step) (change <$> textual) state := by
  rw [map_eq_bind, map_eq_bind]
  exact h.last fun _ => .done

end Recites

namespace Lowering

open Literal (ofExpr ofExprs)

variable {env : Surroundings} {before : List Literal} {state : FunctionState}

/-! ## Literals -/

theorem recites_literal (literal : Literal) :
    Recites env.types before [literal] (some <$> Lowering.literal (literal.add env.types))
      (Textual.literal env before literal) state := by
  intro there
  have there : state.pool = Literal.pool env.types before := there
  have added : literal.add env.types state.pool =
      (literal.value env.types before, Literal.pool env.types (before ++ [literal])) := by
    rw [there, literal.add_pool]
  have ran : (some <$> Lowering.literal (literal.add env.types)) state =
      .ok (some (literal.value env.types before))
        { state with pool := Literal.pool env.types (before ++ [literal]) } := by
    rw [map_eq_bind]
    show EStateM.Result.ok (some (literal.add env.types state.pool).1)
      { state with pool := (literal.add env.types state.pool).2 } = _
    rw [added]
  rw [ran]
  refine ⟨?_, fun other => rfl⟩
  rintro _ _ ⟨⟩
  rfl

/-! ## Forms of expressions -/

theorem recites_used {more : List Literal} {step textual : Lowering (Option Value)}
    (each : Recites env.types before more step textual state) :
    Recites env.types before more (step >>= required) (textual >>= required) state :=
  each.last plain_required

theorem recites_condition {more : List Literal} {test test' : Lowering Value}
    (tests : Recites env.types before more test test' state) :
    Recites env.types before more (condition env test) (condition env test') state :=
  tests.last fun value => (plain_coerceToBool value).bind plain_operandOf

variable {first second third : List Literal}

theorem recites_binary (op : BinaryOperator) {left left' right right' : Lowering Value}
    (lefts : Recites env.types before first left left' state)
    (rights : ∀ state, Recites env.types (before ++ first) second right right' state) :
    Recites env.types before (first ++ second) (binary env op left right)
      (binary env op left' right') state :=
  lefts.bind fun l later _ => (rights later).last fun r => plain_binary op l r

theorem recites_connect (connective : Connective) {left left' right right' : Lowering Value}
    (lefts : Recites env.types before first left left' state)
    (rights : ∀ state, Recites env.types (before ++ first) second right right' state) :
    Recites env.types before (first ++ second) (connect env connective left right)
      (connect env connective left' right') state := by
  rw [connect_eq, connect_eq]
  refine lefts.bind fun l _ _ => .after (plain_enterRight connective l) fun entered later _ => ?_
  exact (rights later).last fun r => plain_connected l r _ _ _

theorem recites_choose {test test' : Lowering Operand}
    {onTrue onTrue' onFalse onFalse' : Lowering Value}
    (tests : Recites env.types before first test test' state)
    (trues : ∀ state, Recites env.types (before ++ first) second onTrue onTrue' state)
    (falses : ∀ state, Recites env.types (before ++ first ++ second) third onFalse onFalse' state) :
    Recites env.types before (first ++ (second ++ third)) (choose env test onTrue onFalse)
      (choose env test' onTrue' onFalse') state := by
  rw [choose_eq, choose_eq]
  refine tests.bind fun flag _ _ => .after (plain_enterTrue flag) fun entered later _ => ?_
  refine (trues later).bind fun a _ _ => .after (plain_enterFalse a _ _) fun placed later _ => ?_
  exact (falses later).last fun b => plain_chosen _ _ b _

theorem recites_element {container container' position position' : Lowering Value}
    (containers : Recites env.types before first container container' state)
    (positions : ∀ state, Recites env.types (before ++ first) second position position' state) :
    Recites env.types before (first ++ second) (element env container position)
      (element env container' position') state := by
  rw [element_eq, element_eq]
  refine containers.bind fun c later _ => ?_
  split
  · exact .fails
  · exact (positions later).last fun p => plain_element c p

theorem recites_call (callee : String) {args args' : Lowering (List Value)}
    (each : ∀ state, Recites env.types before first args args' state) :
    Recites env.types before first (call env callee args) (call env callee args') state :=
  .after (plain_callee callee _) fun target later _ =>
    (each later).last fun values => plain_dispatch target values

/-! ## Expressions -/

mutual

/-- An expression is lowered as its text tells. -/
theorem recites_operand? {before : List Literal} {state : FunctionState} (e : Expr) :
    Recites env.types before (ofExpr e) (operand? env e) (Textual.operand? env before e) state := by
  cases e with
  | bool value =>
      rw [operand?, Textual.operand?]
      exact recites_literal (.bool value)
  | int value =>
      rw [operand?, Textual.operand?]
      exact recites_literal (.int value)
  | float value =>
      rw [operand?, Textual.operand?]
      exact recites_literal (.float value)
  | string value =>
      rw [operand?, Textual.operand?]
      exact recites_literal (.string value)
  | name name =>
      rw [operand?, Textual.operand?]
      exact ((plain_lookup name).recites state).map
  | binary op left right =>
      rw [operand?, Textual.operand?]
      exact (recites_binary op (recites_used (recites_operand? left))
        fun _ => recites_used (recites_operand? right)).map
  | not operand =>
      rw [operand?, Textual.operand?]
      refine ((recites_used (recites_operand? operand)).last fun value => ?_).map
      exact (plain_coerceToBool value).bind plain_negate
  | and left right =>
      rw [operand?, Textual.operand?]
      exact (recites_connect .and (recites_used (recites_operand? left))
        fun _ => recites_used (recites_operand? right)).map
  | or left right =>
      rw [operand?, Textual.operand?]
      exact (recites_connect .or (recites_used (recites_operand? left))
        fun _ => recites_used (recites_operand? right)).map
  | ternary test onTrue onFalse =>
      rw [operand?, Textual.operand?]
      exact (recites_choose (recites_condition (recites_used (recites_operand? test)))
        (fun _ => recites_used (recites_operand? onTrue))
        fun _ => recites_used (recites_operand? onFalse)).map
  | index container position =>
      rw [operand?, Textual.operand?]
      exact (recites_element (recites_used (recites_operand? container))
        fun _ => recites_used (recites_operand? position)).map
  | call callee args =>
      rw [operand?, Textual.operand?]
      exact recites_call callee fun _ => recites_operands args

theorem recites_operands {before : List Literal} {state : FunctionState} (es : List Expr) :
    Recites env.types before (ofExprs es) (operands env es) (Textual.operands env before es)
      state := by
  cases es with
  | nil =>
      rw [operands, Textual.operands]
      exact .done
  | cons first rest =>
      rw [operands, Textual.operands]
      refine (recites_used (recites_operand? first)).bind fun value later _ => ?_
      exact (recites_operands rest).last fun values => .done

end

theorem recites_value (e : Expr) :
    Recites env.types before (ofExpr e) (value env e) (Textual.value env before e) state :=
  recites_used (recites_operand? e)

theorem recites_effect (e : Expr) :
    Recites env.types before (ofExpr e) (effect env e) (Textual.effect env before e) state :=
  (recites_operand? e).map

end Lowering

end LlvmBackend
