import LlvmBackend.Proofs.Checker.Expr
import LlvmBackend.Proofs.Lowering.Stmt

/-! # Well-typed statements are lowered

Statements bind names, and those after a `return` are left out, so here it matters that the block in
use takes instructions: where it does, what the checker accepts is lowered.
-/

namespace LlvmBackend.Lowering

open Ir Checker FunctionState

/-- From a state, a step does not fail because something is wrong with the module. -/
def Accepts {α : Type} (step : Lowering α) (state : FunctionState) : Prop :=
  ∀ error later, step state = .error error later → ¬ error.Proper

theorem Passes.accepts {α : Type} {step : Lowering α} {post : α → Prop} {state : FunctionState}
    (passes : Passes state.scopes step post) : Accepts step state := by
  intro error later failed
  have result := passes state rfl
  rwa [failed] at result

namespace Accepts

variable {α β : Type} {state : FunctionState} {step : Lowering α} {next : α → Lowering β}

/-- Steps are accepted one after the other, the second after what the first gives. -/
theorem bind {post : α → FunctionState → Prop} (first : Accepts step state)
    (yields : Yields step state post)
    (goesOn : ∀ value later, post value later → Accepts (next value) later) :
    Accepts (step >>= next) state := by
  intro error last failed
  rcases error_of_bind failed with failed | ⟨value, later, ran, failed⟩
  · exact first error last failed
  · exact goesOn value later (yields.ok ran) error last failed

/-- A step that passes is followed by one that is accepted. -/
theorem after {post : α → Prop} (first : Passes state.scopes step post)
    (goesOn : ∀ value later, later.scopes = state.scopes → post value →
      Accepts (next value) later) : Accepts (step >>= next) state := by
  intro error last failed
  have result := first state rfl
  rcases error_of_bind failed with failed | ⟨value, later, ran, failed⟩
  · rwa [failed] at result
  · rw [ran] at result
    exact goesOn value later result.1 result.2 error last failed

/-- What is accepted is done, where steps fail only because something is wrong with the module. -/
theorem ok {post : α → FunctionState → Prop} (accepts : Accepts step state)
    (yields : Yields step state post) : ∃ value later, step state = .ok value later := by
  cases eq : step state with
  | ok value later => exact ⟨value, later, rfl⟩
  | error error later => exact absurd (yields.error eq) (accepts error later eq)

end Accepts

variable {slots : List Instr} {env : Surroundings} {state : FunctionState}

/-! ## Variables -/

theorem accepts_define (name : String) (value : Value) : Accepts (define name value) state := by
  rintro _ _ ⟨⟩

theorem passes_variableSlot {known : Scopes Value} (name : String) {type : TypeId}
    (valued : type ≠ Registry.void) : Passes known (variableSlot env name type) fun _ => True := by
  refine passes_get.andThen fun state => ?_
  split
  · exact .done trivial
  · refine (passes_valueIr valued).andThen fun ir => ?_
    refine Passes.andThen (passes_modifyGet (fun _ => rfl) fun _ => trivial) fun slot => ?_
    refine passes_functionName.andThen fun _ => ?_
    exact Passes.andThen (passes_modifyGet (fun _ => rfl) fun _ => trivial) fun _ => .done trivial

theorem accepts_assign (target : String) {value : Lowering Value} {type : TypeId}
    (passes : Passes state.scopes value (HasValue type)) :
    Accepts (assign env target value) state := by
  refine .after passes ?_
  rintro v later same ⟨rfl, valued⟩
  refine .after (passes_obtainValue valued) fun obtained later _ eq => ?_
  refine .after (passes_variableSlot target (eq ▸ valued)) fun slot later _ _ => ?_
  exact .after (passes_emit _) fun _ later _ _ => accepts_define _ _

/-! ## Loops -/

/-- Control goes into the body of a loop. -/
def enterLoop (a b c : String) (test : Lowering Operand) : Lowering (BlockId × BlockId) := do
  let head ← newBlock a
  let bodyBlock ← newBlock b
  let fin ← newBlock c
  terminate (.br head)
  switchTo head
  let flag ← test
  terminate (.condBr flag bodyBlock fin)
  switchTo bodyBlock
  return (head, fin)

theorem passes_enterLoop {known : Scopes Value} (a b c : String) {test : Lowering Operand}
    (passes : Passes known test fun _ => True) :
    Passes known (enterLoop a b c test) fun _ => True := by
  refine (passes_newBlock _).andThen fun head => (passes_newBlock _).andThen fun bodyBlock => ?_
  refine (passes_newBlock _).andThen fun fin => (passes_terminate _).andThen fun _ => ?_
  refine (passes_switchTo _).andThen fun _ => passes.andThen fun flag => ?_
  refine (passes_terminate _).andThen fun _ => (passes_switchTo _).andThen fun _ => ?_
  exact .done trivial

theorem enterLoop_yields (ready : state.Ready slots) (a b c : String) {test : Lowering Operand}
    {rel : Operand → Code → Prop}
    (emits : ∀ later, later.Ready slots → later.names = state.names →
      Emits slots test later rel) :
    Yields (enterLoop a b c test) state fun _ later =>
      later.Ready slots ∧ later.names = state.names := by
  refine threeBlocks_yields ready _ _ _ (fun head _ _ => .br head) fun start jumped keeps₁ => ?_
  have ready₁ := testReady ready jumped
  refine Yields.bind (emits start ready₁ keeps₁.names) ?_
  rintro flag middle ⟨_, _, made⟩
  refine leave_yields made.ready _ _ fun turning branched keeps₂ => Yields.done ?_
  exact ⟨turnReady (loopTurn ready jumped made branched),
    ((keeps₁.trans made.keeps).trans keeps₂).names⟩

theorem accepts_loop (ready : state.Ready slots) (a b c : String) {test : Lowering Operand}
    {body : Lowering Unit} {after : BlockId → Lowering Unit} {rel : Operand → Code → Prop}
    (passes : Passes state.scopes test fun _ => True)
    (emits : ∀ later, later.Ready slots → later.names = state.names → Emits slots test later rel)
    (accepts : ∀ later, later.Ready slots → later.names = state.names → Accepts body later)
    (yields : ∀ later, later.Ready slots → later.names = state.names →
      Yields body later fun _ _ => True)
    (leaves : ∀ fin later, Accepts (after fin) later) :
    Accepts (enterLoop a b c test >>= fun (head, fin) => body >>= fun _ =>
      branchIfOpen head >>= fun _ => after fin) state := by
  refine (passes_enterLoop a b c passes).accepts.bind (enterLoop_yields ready a b c emits) ?_
  rintro ⟨head, fin⟩ turning ⟨ready', names⟩
  refine (accepts turning ready' names).bind (yields turning ready' names) fun _ ending _ => ?_
  exact .after (passes_branchIfOpen _) fun _ turned _ _ => leaves fin turned

theorem loopWhile_eq (test : Lowering Operand) (body : Lowering Unit) :
    loopWhile test body =
      enterLoop "while-head" "while-body" "while-end" test >>= fun (head, fin) =>
        body >>= fun _ => branchIfOpen head >>= fun _ => switchTo fin := by
  simp only [loopWhile, enterLoop, bind_assoc, pure_bind]

theorem passes_tested {known : Scopes Value} {test : Expr}
    (checked : checkTest env.types env.signatures known.types test = some ()) :
    Passes known (condition env (value env test)) fun _ => True := by
  obtain ⟨type, typed, tests⟩ := Option.bind_eq_some_iff.mp checked
  exact passes_condition (passes_value typed) (need_eq_some.mp tests)

theorem accepts_loopWhile (ready : state.Ready slots) {test : Expr} {body : List Stmt}
    (checked : checkTest env.types env.signatures state.scopes.types test = some ())
    (accepts : ∀ later, later.Ready slots → later.names = state.names →
      Accepts (suite env body) later) :
    Accepts (loopWhile (condition env (value env test)) (suite env body)) state := by
  rw [loopWhile_eq]
  refine accepts_loop ready _ _ _ (passes_tested checked)
    (fun later ready' known => condition_emits env (value_emits env test ready' known)) accepts
    (fun later ready' _ => (suite_runs env body ready').mono fun _ _ _ => trivial) ?_
  exact fun fin later => (passes_switchTo fin).accepts

theorem elementOf?_eq_some {source element : TypeId} :
    elementOf? env.types source = some element ↔ ∃ entry,
      env.types.method source next = some entry ∧
        env.types.resolve entry.returns = .ok element ∧ element ≠ Registry.void := by
  simp only [elementOf?, Option.bind_eq_bind, Option.bind_eq_some_iff, valued_eq_some,
    Registry.resolve_eq_ok]
  constructor
  · rintro ⟨entry, method, _, resolved, valued, rfl⟩
    exact ⟨entry, method, resolved, valued⟩
  · rintro ⟨entry, method, resolved, valued⟩
    exact ⟨entry, method, element, resolved, valued, rfl⟩

theorem passes_iteration {known : Scopes Value} {source element : TypeId}
    (given : elementOf? env.types source = some element) :
    Passes known (iteration env source) fun result => result.2 = element := by
  obtain ⟨entry, method, resolved, _⟩ := elementOf?_eq_some.mp given
  unfold iteration
  rw [method]
  refine (passes_ofExcept resolved).bind ?_
  rintro _ rfl
  exact .done rfl

theorem loopFor_eq (target : String) (source : Lowering Value) (body : Lowering Unit) :
    loopFor env target source body = (do
      let source ← source
      let (symbol, element) ← iteration env source.type
      let (iterator, source) ← obtainAddress env source
      let slot ← variableSlot env target element
      let pointer := (← valueIr env element).ptr
      define target (.stable element slot)
      let (head, fin) ← enterLoop "for-head" "for-body" "for-end"
        (temp >>= fun more =>
          emit (.call (some more) .i1 symbol [iterator, ⟨pointer, slot⟩]) >>= fun _ => pure more)
      body
      branchIfOpen head
      switchTo fin
      release env source) := by
  simp only [loopFor, enterLoop, bind_assoc, pure_bind]

theorem accepts_loopFor (ready : state.Ready slots) (known : state.names.Valued) {target : String}
    {source : Expr} {body : List Stmt} {type element : TypeId}
    (typed : used? env.types env.signatures state.scopes.types source = some type)
    (given : elementOf? env.types type = some element)
    (accepts : ∀ later, later.Ready slots → later.names.Valued →
      later.scopes.types = state.scopes.types.bind target element →
      Accepts (suite env body) later) :
    Accepts (loopFor env target (value env source) (suite env body)) state := by
  rw [loopFor_eq]
  refine (passes_value typed).accepts.bind (value_emits env source ready rfl) ?_
  rintro v state₁ ⟨_, evaluates, made₁⟩
  obtain rfl : v.type = type := Option.some.inj ((evaluates.used known).symm.trans typed)
  obtain ⟨entry, method, resolved, valued⟩ := elementOf?_eq_some.mp given
  refine .bind (passes_iteration given).accepts (iteration_yields env v.type) ?_
  rintro ⟨_, found⟩ state₁ ⟨_, method', rfl, resolved', rfl⟩
  obtain rfl := Option.some.inj (method.symm.trans method')
  obtain rfl := Except.ok.inj (resolved.symm.trans resolved')
  refine .bind (passes_obtainAddress (evaluates.valued known v (by simp))).accepts
    (obtainAddress_emits env made₁.ready v) ?_
  rintro ⟨iterator, v'⟩ state₂ ⟨_, _, made₂⟩
  refine .bind (passes_variableSlot target valued).accepts
    (variableSlot_runs env made₂.ready target element) ?_
  rintro slot state₃ ⟨_, slotFor, runs₃⟩
  refine .bind (passes_valueIr valued).accepts (valueIr_yields env element) ?_
  rintro _ state₃ ⟨_, rfl, rfl⟩
  refine .bind (accepts_define target _) (define_runs target _ runs₃) ?_
  rintro _ state₄ ⟨bound, runs₄⟩
  have names : state₂.names = state.names := made₂.keeps.names.trans made₁.keeps.names
  obtain ⟨sameTypes, keeps⟩ := slotFor.keeps
  rw [names] at sameTypes keeps
  have asks (later : FunctionState) (ready' : later.Ready slots) :
      Emits slots (temp >>= fun more => emit (.call (some more) .i1 entry.symbol
        [iterator, ⟨.ptr ⟨env.types.ir element⟩, slot⟩]) >>= fun _ => pure more) later
        fun _ _ => True :=
    define_last ready' (fun more => .call (some more) .i1 entry.symbol
      [iterator, ⟨.ptr ⟨env.types.ir element⟩, slot⟩]) (fun _ => rfl) (fun _ => rfl) fun _ => trivial
  have leaves (fin : BlockId) (later : FunctionState) :
      Accepts (switchTo fin >>= fun _ => release env v') later :=
    Passes.accepts ((passes_switchTo fin).andThen fun _ => passes_release v')
  refine accepts_loop (runs₄.ready rfl) _ _ _ ?_ (fun later ready' _ => asks later ready') ?_ ?_
    leaves
  · exact passes_temp.andThen fun more => (passes_emit _).andThen fun _ => .done trivial
  · intro later ready' names'
    refine accepts later ready' ?_ ?_
    · rw [names', bound]
      exact (keeps known).define valued
    · have eq : later.scopes.types = state₄.names.types := congrArg Names.types names'
      rw [eq, bound, Names.types_define, sameTypes]
      rfl
  · exact fun later ready' _ => (suite_runs env body ready').mono fun _ _ _ => trivial

/-! ## Returns -/

theorem passes_returnValue {known : Scopes Value} {value : Value}
    (valued : value.type ≠ Registry.void) :
    Passes known (returnValue env value.type value) fun _ => True := by
  simp only [returnValue, ne_eq, not_true_eq_false, if_false]
  refine (passes_obtainValue valued).bind fun obtained _ => ?_
  exact (passes_emit _).andThen fun _ => passes_terminate _

theorem passes_leave {known : Scopes Value} (expr : Option Expr)
    (checked : checkReturn env.types env.signatures env.outcome known.types expr = some ()) :
    Passes known (leave env expr) fun _ => True := by
  unfold leave
  cases outcome : env.outcome with
  | status =>
      cases expr with
      | none => exact passes_terminate _
      | some expr =>
          obtain ⟨type, typed, _⟩ := Option.bind_eq_some_iff.mp checked
          exact (passes_effect typed).andThen fun _ => passes_terminate _
  | result expected =>
      cases expr with
      | none =>
          obtain rfl : expected = Registry.void := by simpa [checkReturn, outcome] using checked
          exact passes_terminate _
      | some expr =>
          obtain ⟨type, typed, fits⟩ := Option.bind_eq_some_iff.mp checked
          have fits : expected = Registry.void ∨ type ≠ Registry.void ∧ expected = type := by
            simpa [outcome] using fits
          by_cases void : expected = Registry.void
          · simp only [if_pos void]
            exact (passes_effect typed).andThen fun _ => passes_terminate _
          · simp only [if_neg void]
            obtain ⟨valued, rfl⟩ := fits.resolve_left void
            have used : used? env.types env.signatures known.types expr = some expected := by
              rw [used?, typed]
              exact valued_eq_some.mpr ⟨valued, rfl⟩
            refine (passes_value used).bind ?_
            rintro v ⟨rfl, _⟩
            exact passes_returnValue valued

/-! ## Chains of conditions -/

/-- Control goes into the suite of an arm, and the chain goes on elsewhere. -/
def enterArm (fin : BlockId) (index : Nat) (rest : List Arm) (condition : Lowering Operand) :
    Lowering BlockId := do
  let flag ← condition
  let suite ← newBlock s!"if-suite-{index}"
  let otherwise ← nextArm fin (index + 1) rest
  terminate (.condBr flag suite otherwise)
  switchTo suite
  return otherwise

theorem guardedArm_eq (fin : BlockId) (index : Nat) (rest : List Arm)
    (condition : Lowering Operand) (body : Lowering Unit) :
    guardedArm fin index rest condition body =
      enterArm fin index rest condition >>= fun otherwise =>
        body >>= fun _ => branchIfOpen fin >>= fun _ => switchTo otherwise := by
  simp only [guardedArm, enterArm, bind_assoc, pure_bind]

theorem passes_enterArm {known : Scopes Value} (fin : BlockId) (index : Nat) (rest : List Arm)
    {condition : Lowering Operand} (passes : Passes known condition fun _ => True) :
    Passes known (enterArm fin index rest condition) fun _ => True := by
  have goesOn : Passes known (nextArm fin (index + 1) rest) fun _ => True := by
    match rest with
    | [] => exact .done trivial
    | .mk (some _) _ :: _ => exact passes_newBlock _
    | .mk none _ :: _ => exact passes_newBlock _
  refine passes.andThen fun flag => (passes_newBlock _).andThen fun suite => ?_
  refine goesOn.andThen fun otherwise => (passes_terminate _).andThen fun _ => ?_
  exact (passes_switchTo _).andThen fun _ => .done trivial

theorem enterArm_yields (ready : state.Ready slots) {fin : BlockId}
    (exit : (state.site slots).Exit fin) (index : Nat) (rest : List Arm) {test : Lowering Operand}
    {rel : Operand → Code → Prop} (emits : Emits slots test state rel) :
    Yields (enterArm fin index rest test) state fun _ later =>
      later.Ready slots ∧ later.names = state.names := by
  refine Yields.bind emits ?_
  rintro flag middle ⟨_, _, made⟩
  cases rest with
  | nil =>
      simp only [nextArm, pure_bind]
      refine oneBlock_yields made.ready _ (fun suite => .condBr flag suite fin)
        fun start branched keeps => Yields.done ⟨?_, (made.keeps.trans keeps).names⟩
      have course := LastSuite.of made.ready.valid made.ready.isOpen (made.exit ready exit) flag
        s!"if-suite-{index}"
      exact ⟨branched ▸ course.side.grows.after, branched ▸ course.side.isOpen⟩
  | cons another rest =>
      obtain ⟨hint, named⟩ : ∃ hint, nextArm fin (index + 1) (another :: rest) = newBlock hint := by
        obtain ⟨condition, stmts⟩ := another
        cases condition <;> exact ⟨_, rfl⟩
      rw [named]
      refine twoBlocks_yields made.ready _ _ (fun suite otherwise => .condBr flag suite otherwise)
        fun start branched keeps => Yields.done ⟨?_, (made.keeps.trans keeps).names⟩
      have course := Suite.of made.ready.valid made.ready.isOpen (made.exit ready exit) flag
        s!"if-suite-{index}" hint
      exact ⟨branched ▸ course.side.grows.after, branched ▸ course.side.isOpen⟩

theorem accepts_guardedArm (ready : state.Ready slots) {fin : BlockId}
    (exit : (state.site slots).Exit fin) (index : Nat) (rest : List Arm) {test : Expr}
    {body : List Stmt}
    (checked : checkTest env.types env.signatures state.scopes.types test = some ())
    (accepts : ∀ later, later.Ready slots → later.names = state.names →
      Accepts (suite env body) later) :
    Accepts (guardedArm fin index rest (condition env (value env test)) (suite env body)) state := by
  rw [guardedArm_eq]
  refine (passes_enterArm fin index rest (passes_tested checked)).accepts.bind
    (enterArm_yields ready exit index rest
      (condition_emits env (value_emits env test ready rfl))) ?_
  rintro otherwise start ⟨ready', names⟩
  refine (accepts start ready' names).bind (suite_runs env body ready') fun _ ending _ => ?_
  exact .after (passes_branchIfOpen _) fun _ turned _ _ => (passes_switchTo _).accepts

/-! ## Statements -/

theorem accepts_suite_terminated {stmts : List Stmt} (closed : ¬ (state.site slots).Open) :
    Accepts (suite env stmts) state := by
  cases stmts with
  | nil =>
      rw [suite]
      rintro _ _ ⟨⟩
  | cons first rest =>
      rw [suite]
      refine passes_isTerminated.accepts.bind isTerminated_yields ?_
      rintro _ state ⟨rfl, rfl⟩
      simp only [terminated_of_not_open closed]
      rintro _ _ ⟨⟩

mutual

/-- A statement that the checker accepts is lowered. -/
theorem accepts_stmt {state : FunctionState} (s : Stmt) (ready : state.Ready slots)
    (known : state.names.Valued) {bound : Env}
    (checked : checkStmt env.types env.signatures env.outcome state.scopes.types s = some bound) :
    Accepts (stmt env s) state := by
  cases s with
  | assign target e =>
      obtain ⟨type, typed, _⟩ := Option.bind_eq_some_iff.mp checked
      rw [stmt]
      exact accepts_assign target (passes_value typed)
  | ifChain chain =>
      cases chain with
      | nil =>
          rw [stmt]
          exact Passes.accepts ((passes_newBlock _).andThen fun fin =>
            (passes_terminate _).andThen fun _ => passes_switchTo _)
      | cons first rest =>
          rw [stmt]
          refine (passes_newBlock "if-fin").accepts.bind (newBlock_yields ready.valid _) ?_
          rintro fin start ⟨rfl, fresh, keeps⟩
          have valid := ready.valid.fresh "if-fin"
          have isOpen := (Site.open_fresh ready.valid "if-fin").mpr ready.isOpen
          have exit := (ready.valid.pending_fresh "if-fin").exit valid
          have eq : start.scopes.types = state.scopes.types := congrArg Names.types keeps.names
          exact accepts_arms _ 0 (first :: rest) ⟨fresh ▸ valid, fresh ▸ isOpen⟩ (fresh ▸ exit)
            (keeps.names ▸ known) (eq ▸ checked)
  | whileLoop test body =>
      obtain ⟨_, tested, checked⟩ := Option.bind_eq_some_iff.mp checked
      rw [stmt]
      refine accepts_loopWhile ready tested fun later ready' names => ?_
      have eq : later.scopes.types = state.scopes.types := congrArg Names.types names
      exact accepts_suite body ready' (names ▸ known) (eq ▸ checked)
  | forLoop target source body =>
      obtain ⟨type, typed, checked⟩ := Option.bind_eq_some_iff.mp checked
      obtain ⟨element, given, checked⟩ := Option.bind_eq_some_iff.mp checked
      rw [stmt]
      refine accepts_loopFor ready known typed given fun later ready' known' eq => ?_
      exact accepts_suite body ready' known' (eq ▸ checked)
  | ret expr =>
      obtain ⟨_, checked, _⟩ := Option.bind_eq_some_iff.mp checked
      rw [stmt]
      exact (passes_leave expr checked).accepts
  | effect expr =>
      obtain ⟨type, typed, _⟩ := Option.bind_eq_some_iff.mp checked
      rw [stmt]
      exact (passes_effect typed).accepts

theorem accepts_suite {state : FunctionState} (stmts : List Stmt) (ready : state.Ready slots)
    (known : state.names.Valued) {bound : Env}
    (checked : checkSuite env.types env.signatures env.outcome state.scopes.types stmts =
      some bound) : Accepts (suite env stmts) state := by
  cases stmts with
  | nil =>
      rw [suite]
      rintro _ _ ⟨⟩
  | cons first rest =>
      rw [suite]
      refine passes_isTerminated.accepts.bind isTerminated_yields ?_
      rintro _ state ⟨rfl, rfl⟩
      simp only [ready.not_terminated]
      obtain ⟨middle, checked, goesOn⟩ := Option.bind_eq_some_iff.mp checked
      refine (accepts_stmt first ready known checked).bind (stmt_runs env first ready) ?_
      rintro _ later ⟨ended, code, lowers, runs⟩
      cases ended with
      | true =>
          have closed : ¬ (later.site slots).Open := by simp [runs.open_iff]
          exact accepts_suite_terminated closed
      | false =>
          obtain ⟨checked', known'⟩ := lowers.checks known
          obtain rfl : middle = later.names.types :=
            Option.some.inj (checked.symm.trans checked')
          rw [Translation.isReturn_eq, ← lowers.isReturn, if_neg (by simp)] at goesOn
          exact accepts_suite rest (runs.ready rfl) known' goesOn

theorem accepts_arms {state : FunctionState} (fin : BlockId) (index : Nat) (chain : List Arm)
    (ready : state.Ready slots) (exit : (state.site slots).Exit fin) (known : state.names.Valued)
    {bound : Env}
    (checked : checkArms env.types env.signatures env.outcome state.scopes.types chain =
      some bound) : Accepts (arms env fin index chain) state := by
  match chain with
  | [] =>
      rw [arms]
      rintro _ _ ⟨⟩
  | .mk none body :: _ =>
      rw [arms]
      refine (accepts_suite body ready known checked).bind (suite_runs env body ready) ?_
      intro _ ending _
      exact .after (passes_branchIfOpen _) fun _ turned _ _ => (passes_switchTo _).accepts
  | .mk (some test) body :: rest =>
      rw [arms]
      obtain ⟨_, tested, checked⟩ := Option.bind_eq_some_iff.mp checked
      obtain ⟨middle, suiteChecked, goesOn⟩ := Option.bind_eq_some_iff.mp checked
      have accepts := accepts_guardedArm ready exit index rest tested fun later ready' names =>
        have eq : later.scopes.types = state.scopes.types := congrArg Names.types names
        accepts_suite body ready' (names ▸ known) (eq ▸ suiteChecked)
      have emits := value_emits env test ready rfl
      have works := @suite_works slots env state.names state.header body
        fun ready' => suite_runs env body ready'
      cases rest with
      | nil =>
          refine accepts.bind (guardedArm_last env ready rfl exit index emits works) ?_
          intro _ later _
          rw [arms]
          rintro _ _ ⟨⟩
      | cons another rest =>
          refine accepts.bind
            (guardedArm_runs env ready rfl exit index another rest emits works) ?_
          rintro _ later ⟨ready', exit', _, _, _, _, _, _, _, _, _, _, _, _, lowers, _⟩
          obtain ⟨checked', known'⟩ := lowers.checks known
          obtain rfl : middle = later.names.types :=
            Option.some.inj (suiteChecked.symm.trans checked')
          exact accepts_arms fin (index + 1) (another :: rest) ready' exit' known' goesOn

end

end LlvmBackend.Lowering
