import LlvmBackend.Proofs.Lowering.Values

/-! # Expressions

Lowering an expression emits code that stands for it.
-/

namespace LlvmBackend

open Ir FunctionState

namespace Lowering

variable {slots : List Instr} {state : FunctionState} (env : Surroundings)

/-! ## Where two ways meet -/

/-- Merges were emitted from one state to another. -/
structure Merges (slots : List Instr) (a b : BlockId) (state : FunctionState) (code : Code)
    (later : FunctionState) : Prop where
  merge : Merge a b (state.site slots) code (later.site slots)
  keeps : state.Keeps later

variable {a b : BlockId} {base : Site}

theorem phi_yields {α : Type} {post : α → FunctionState → Prop}
    (meets : Meets a b base (state.site slots)) (instr : Nat → Instr)
    {incoming : List (Operand × BlockId)} (merges : ∀ n, (instr n).incoming? = some incoming)
    (dest : ∀ n, (instr n).dest = some (.temp n)) (perm : (incoming.map Prod.snd).Perm [a, b])
    {next : Nat → Lowering α}
    (goesOn : ∀ n later, Merges slots a b state (.instr .plain (instr n)) later →
      Meets a b base (later.site slots) → Yields (next n) later post) :
    Yields (tempNumber >>= fun n => emit (instr n) >>= fun _ => next n) state post := by
  refine defineNumber_yields ⟨meets.grows.after, meets.isOpen⟩ instr dest fun later eq keeps => ?_
  have merge : Merge a b (state.site slots) (.instr .plain (instr (state.site slots).nextTemp))
      (later.site slots) := eq ▸ .instr (merges _) (dest _) perm
  exact goesOn _ later ⟨merge, keeps⟩ (merge.meets meets).1

theorem mergeBinding_yields (meets : Meets a b base (state.site slots)) (type : TypeId)
    (first second : Binding × BlockId) (perm : [first.2, second.2].Perm [a, b]) :
    Yields (mergeBinding env type first second) state fun binding later => ∃ code,
      Translation.Owners env.types type first second code binding ∧
        Merges slots a b state code later := by
  unfold mergeBinding
  by_cases temporary : first.1 = .temporary ∧ second.1 = .temporary
  · simp only [if_pos temporary]
    exact Yields.done ⟨_, .temporary temporary.1 temporary.2, .skip, .refl state⟩
  simp only [if_neg temporary]
  split
  · next same =>
      refine Yields.done ⟨_, .stable ?_, .skip, .refl state⟩
      simpa [Option.isNone_iff_eq_none] using same
  · next disagree =>
      have owned : (env.types.method type teardown).isSome ∧
          (first.1.owns ∨ second.1.owns) := by
        simpa [Option.isSome_iff_ne_none, or_iff_not_imp_left] using disagree
      refine phi_yields meets
        (fun n => .phi (.temp n) .i1 [(first.1.flag, first.2), (second.1.flag, second.2)])
        (fun _ => rfl) (fun _ => rfl) perm fun n later merges _ => ?_
      exact Yields.done ⟨_, .flag owned.1 temporary owned.2, merges⟩

theorem joinAddresses_yields (meets : Meets a b base (state.site slots)) (type : TypeId)
    (first second : Operand × Binding × BlockId) (perm : [first.2.2, second.2.2].Perm [a, b]) :
    Yields (joinAddresses env type first second) state fun value later => ∃ code,
      Translation.Joins env.types type first second code value ∧
        Merges slots a b state code later := by
  refine (valueIr_yields env type).bind ?_
  rintro _ _ ⟨valued, rfl, rfl⟩
  simp only [temp, bind_assoc, pure_bind]
  refine phi_yields meets
    (fun n => .phi (.temp n) (.ptr ⟨env.types.ir type⟩)
      [(first.1, first.2.2), (second.1, second.2.2)])
    (fun _ => rfl) (fun _ => rfl) perm fun n later merges meets' => ?_
  refine (mergeBinding_yields env meets' type first.2 second.2 perm).bind ?_
  rintro binding last ⟨code, owners, merges'⟩
  exact Yields.done ⟨_, .intro valued owners, .seq merges.merge merges'.merge,
    merges.keeps.trans merges'.keeps⟩

/-! ## Forms with several ways -/

theorem branch_eq (connective : Connective) (flag : Operand) (right skip : BlockId) :
    connective.branch flag right skip = .sides (connective = .and) flag right skip := by
  cases connective <;> rfl

section Ways

variable {start t start₂ u start₃ v : FunctionState} {first second merging : Code} {taken : Bool}
  {flag : Operand} {x y z : String}

theorem firstReady (ready : state.Ready slots)
    (branched : start.site slots = (state.site slots).enterThree
      (.sides taken flag (state.site slots).size ((state.site slots).size + 1)) x y z) :
    start.Ready slots := by
  have way := FirstWay.of ready.valid ready.isOpen taken flag x y z
  exact ⟨branched ▸ way.side.grows.after, branched ▸ way.side.isOpen⟩

theorem secondReady (ready : state.Ready slots)
    (branched : start.site slots = (state.site slots).enterThree
      (.sides taken flag (state.site slots).size ((state.site slots).size + 1)) x y z)
    (made : Makes slots start first t)
    (left : start₂.site slots = (t.site slots).leave (.br ((state.site slots).size + 2))
      ((state.site slots).size + 1)) :
    start₂.Ready slots := by
  have built := made.built (firstReady ready branched)
  rw [branched] at built
  have way := (FirstWay.of ready.valid ready.isOpen taken flag x y z).secondWay built made.ready.isOpen
  exact ⟨left ▸ way.side.grows.after, left ▸ way.side.isOpen⟩

/-- Control stands where two ways have met, and the code of both ways is known once the merges
    are. -/
theorem joined (ready : state.Ready slots)
    (branched : start.site slots = (state.site slots).enterThree
      (.sides taken flag (state.site slots).size ((state.site slots).size + 1)) x y z)
    (made₁ : Makes slots start first t)
    (left₁ : start₂.site slots = (t.site slots).leave (.br ((state.site slots).size + 2))
      ((state.site slots).size + 1))
    (made₂ : Makes slots start₂ second u)
    (left₂ : start₃.site slots = (u.site slots).leave (.br ((state.site slots).size + 2))
      ((state.site slots).size + 2)) :
    Meets (t.site slots).current (u.site slots).current (state.site slots) (start₃.site slots) ∧
      ∀ merging v, Merges slots (t.site slots).current (u.site slots).current start₃ merging v →
        state.Keeps v →
        Makes slots state
          (.seq (.sides taken flag (state.site slots).size ((state.site slots).size + 1)
            (.seq first (.jump (t.site slots).current ((state.site slots).size + 2)))
            (.seq second (.jump (u.site slots).current ((state.site slots).size + 2)))) merging) v := by
  have ready₂ := secondReady ready branched made₁ left₁
  have way₁ := made₁.built (firstReady ready branched)
  have way₂ := made₂.built ready₂
  have build₁ := made₁.build
  have build₂ := made₂.build
  rw [branched] at way₁ build₁
  rw [left₁] at way₂ build₂
  have course := joinCourse (FirstWay.of ready.valid ready.isOpen taken flag x y z) way₁
    made₁.ready.isOpen way₂ made₂.ready.isOpen
  refine ⟨left₂ ▸ course.meets, fun merging v merges keeps => ?_⟩
  have merge := merges.merge
  rw [left₂] at merge
  exact .of ready (.join build₁ made₁.ready.isOpen build₂ made₂.ready.isOpen merge)
    (merge.meets course.meets).1.isOpen rfl keeps

end Ways

section Connectives

variable {start middle : FunctionState} {flag : Operand} {x y z : String}
  {connective : Connective} {atRight : Code} {left right : Value}

theorem connectAlike_makes (ready : state.Ready slots) (keeps : state.Keeps start)
    (branched : start.site slots = (state.site slots).enterThree
      (.sides (connective = .and) flag (state.site slots).size ((state.site slots).size + 1)) x y z)
    (made : Makes slots start atRight middle) (alike : right.type = left.type) :
    Yields (connectAlike env left right ((state.site slots).size + 1) ((state.site slots).size + 2))
      middle fun value later => ∃ code,
        Translation.Decides env connective left right flag atRight code value ∧
          Makes slots state code later := by
  refine Yields.bind (obtainAddress_emits env made.ready right) ?_
  rintro ⟨rightAddress, right'⟩ state₁ ⟨placing, ⟨_, places⟩, made₁⟩
  refine Yields.bind (release_emits env made₁.ready left) ?_
  rintro _ state₂ ⟨releasing, releases, made₂⟩
  refine Yields.bind (currentBlock_yields slots) ?_
  rintro _ _ ⟨rfl, rfl⟩
  refine leave_yields made₂.ready _ _ fun start₂ left₁ keeps₁ => ?_
  have way₁ := made.seq (made₁.seq made₂)
  have ready₂ := secondReady ready branched way₁ left₁
  refine Yields.bind ((obtainAddress_emits env ready₂ left).both (obtainAddress_stays env ready₂ left)) ?_
  rintro ⟨leftAddress, left'⟩ u ⟨⟨placing', ⟨_, places'⟩, way₂⟩, stays⟩
  refine leave_yields way₂.ready _ _ fun start₃ left₂ keeps₂ => ?_
  obtain ⟨meets, makes⟩ := joined ready branched way₁ left₁ way₂ left₂
  have skip : (u.site slots).current = (state.site slots).size + 1 := by
    rw [stays, left₁]
    rfl
  refine (joinAddresses_yields env meets left'.type _ _ ?_).mono ?_
  · simpa [skip] using List.Perm.swap _ _ []
  · rintro value later ⟨merging, joins, merges⟩
    have kept := ((keeps.trans way₁.keeps).trans keeps₁).trans
      ((way₂.keeps.trans keeps₂).trans merges.keeps)
    refine ⟨_, ?_, makes _ _ merges kept⟩
    have distinct := meets.distinct
    rw [skip] at distinct ⊢
    rw [places'.type_eq, places'.binding_eq] at joins
    exact .alike alike places releases places' distinct joins

theorem connectFlags_makes (ready : state.Ready slots) (keeps : state.Keeps start)
    (branched : start.site slots = (state.site slots).enterThree
      (.sides (connective = .and) flag (state.site slots).size ((state.site slots).size + 1)) x y z)
    (made : Makes slots start atRight middle) (differ : right.type ≠ left.type) :
    Yields (connectFlags env left right flag ((state.site slots).size + 1)
        ((state.site slots).size + 2)) middle fun value later => ∃ code,
      Translation.Decides env connective left right flag atRight code value ∧
        Makes slots state code later := by
  unfold connectFlags
  rw [← bind_assoc]
  refine Yields.bind (flag_emits env made.ready right) ?_
  rintro flag' state₁ ⟨testing, tests, made₁⟩
  refine Yields.bind (currentBlock_yields slots) ?_
  rintro _ _ ⟨rfl, rfl⟩
  have way₁ := made.seq made₁
  refine leave_yields made₁.ready _ _ fun start₂ left₁ keeps₁ => ?_
  have way₂ := Makes.skip (secondReady ready branched way₁ left₁)
  refine leave_yields way₂.ready _ _ fun start₃ left₂ keeps₂ => ?_
  obtain ⟨meets, makes⟩ := joined ready branched way₁ left₁ way₂ left₂
  have skip : (start₂.site slots).current = (state.site slots).size + 1 := by
    rw [left₁]
    rfl
  simp only [temp, bind_assoc, pure_bind]
  refine phi_yields meets
    (fun n => .phi (.temp n) .i1 [(flag, (state.site slots).size + 1), (flag', (_ : BlockId))])
    (fun _ => rfl) (fun _ => rfl) ?_ fun n later merges _ => ?_
  · simpa [skip] using List.Perm.swap _ _ []
  · have kept := (((keeps.trans way₁.keeps).trans keeps₁).trans keeps₂).trans merges.keeps
    have joined := makes _ _ merges kept
    refine Yields.bind (release_emits env joined.ready left) ?_
    rintro _ last ⟨releasing, releases, made₃⟩
    refine Yields.done ⟨_, ?_, joined.seq made₃⟩
    have distinct := meets.distinct
    rw [skip] at distinct ⊢
    exact .flags differ tests releases distinct

end Connectives

theorem condition_emits {test : Lowering Value} {testRel : Value → Code → Prop}
    (testEmits : Emits slots test state testRel) :
    Emits slots (condition env test) state fun flag code => ∃ t atTest testing,
      testRel t atTest ∧ Translation.Tests env t testing flag ∧ code = .seq atTest testing := by
  refine testEmits.bind fun t atTest later tested made => ?_
  refine (flag_emits env made.ready t).mono fun flag testing tests => ?_
  exact ⟨t, atTest, testing, tested, tests, rfl⟩

/-- A connective evaluates its right operand only if the left one does not decide. -/
theorem connect_emits (connective : Connective)
    {left right : Lowering Value} {leftRel rightRel : Value → Code → Prop}
    (leftEmits : Emits slots left state leftRel)
    (rightEmits : ∀ later, later.Ready slots → state.Keeps later → Emits slots right later rightRel) :
    Emits slots (connect env connective left right) state fun value code => ∃ l r atLeft atRight,
      leftRel l atLeft ∧ rightRel r atRight ∧
        Translation.Connects env connective l r atLeft atRight code value := by
  refine leftEmits.bind fun l atLeft state₁ evaluates made => ?_
  rw [← bind_assoc]
  refine (flag_emits env made.ready l.borrowed).bind fun flag testing state₂ tests made' => ?_
  simp only [branch_eq]
  refine threeBlocks_yields made'.ready _ _ _
    (fun right skip _ => .sides (connective = .and) flag right skip)
    fun start branched keeps => ?_
  have ready₁ := firstReady made'.ready branched
  have kept := (made.keeps.trans made'.keeps).trans keeps
  refine Yields.bind (rightEmits start ready₁ kept) ?_
  rintro r middle ⟨atRight, evaluates', way⟩
  split
  · next alike =>
      refine (connectAlike_makes env made'.ready keeps branched way alike).mono ?_
      rintro value later ⟨code, decides, made''⟩
      exact ⟨code, ⟨l, r, atLeft, atRight, evaluates, evaluates', .intro tests decides⟩, made''⟩
  · next differ =>
      refine (connectFlags_makes env made'.ready keeps branched way differ).mono ?_
      rintro value later ⟨code, decides, made''⟩
      exact ⟨code, ⟨l, r, atLeft, atRight, evaluates, evaluates', .intro tests decides⟩, made''⟩

/-- One of two values of one type, by a condition. -/
theorem choose_emits {test onTrue onFalse : Lowering Value}
    {testRel trueRel falseRel : Value → Code → Prop}
    (testEmits : Emits slots test state testRel)
    (trueEmits : ∀ later, later.Ready slots → state.Keeps later → Emits slots onTrue later trueRel)
    (falseEmits : ∀ later, later.Ready slots → state.Keeps later →
      Emits slots onFalse later falseRel) :
    Emits slots (choose env (condition env test) onTrue onFalse) state fun value code =>
      ∃ t a b atTest atTrue atFalse, testRel t atTest ∧ trueRel a atTrue ∧ falseRel b atFalse ∧
        Translation.Chooses env t a b atTest atTrue atFalse code value := by
  refine (condition_emits env testEmits).bind ?_
  rintro flag _ state₁ ⟨t, atTest, testing, tested, tests, rfl⟩ made
  refine threeBlocks_yields made.ready _ _ _
    (fun first second _ => .sides true flag first second) fun start branched keeps₁ => ?_
  refine Yields.bind (trueEmits start (firstReady made.ready branched) (made.keeps.trans keeps₁)) ?_
  rintro a state₂ ⟨atTrue, evaluates, made₁⟩
  refine Yields.bind (obtainAddress_emits env made₁.ready a) ?_
  rintro ⟨trueAddress, a'⟩ state₃ ⟨placing, ⟨_, places⟩, made₂⟩
  refine Yields.bind (currentBlock_yields slots) ?_
  rintro _ _ ⟨rfl, rfl⟩
  have way₁ := made₁.seq made₂
  refine leave_yields way₁.ready _ _ fun start₂ left₁ keeps₂ => ?_
  have ready₂ := secondReady made.ready branched way₁ left₁
  have kept := ((made.keeps.trans keeps₁).trans way₁.keeps).trans keeps₂
  refine Yields.bind (falseEmits start₂ ready₂ kept) ?_
  rintro b state₄ ⟨atFalse, evaluates', made₃⟩
  by_cases differ : b.type ≠ a'.type
  · simp only [if_pos differ]
    exact Yields.fails_bind trivial
  simp only [if_neg differ]
  refine Yields.bind (obtainAddress_emits env made₃.ready b) ?_
  rintro ⟨falseAddress, b'⟩ u ⟨placing', ⟨_, places'⟩, made₄⟩
  refine Yields.bind (currentBlock_yields slots) ?_
  rintro _ _ ⟨rfl, rfl⟩
  have way₂ := made₃.seq made₄
  refine leave_yields way₂.ready _ _ fun start₃ left₂ keeps₃ => ?_
  obtain ⟨meets, makes⟩ := joined made.ready branched way₁ left₁ way₂ left₂
  refine (joinAddresses_yields env meets a'.type _ _ (.refl _)).mono ?_
  rintro value later ⟨merging, joins, merges⟩
  have kept := (((keeps₁.trans way₁.keeps).trans keeps₂).trans
    (way₂.keeps.trans keeps₃)).trans merges.keeps
  rw [places.type_eq, places.binding_eq, places'.binding_eq] at joins
  have same : b.type = a.type := (not_ne_iff.mp differ).trans places.type_eq
  exact ⟨_, ⟨t, a, b, atTest, atTrue, atFalse, tested, evaluates, evaluates',
    .intro same tests places places' meets.distinct joins⟩, makes _ _ merges kept⟩

/-! ## Other forms -/

theorem element_emits {container position : Lowering Value} {containerRel positionRel : Value → Code → Prop}
    (containerEmits : Emits slots container state containerRel)
    (positionEmits : ∀ later, later.Ready slots → state.Keeps later →
      Emits slots position later positionRel) :
    Emits slots (element env container position) state fun value code =>
      ∃ c p atContainer atPosition, containerRel c atContainer ∧ positionRel p atPosition ∧
        Translation.Indexes env c p atContainer atPosition code value := by
  refine containerEmits.bind fun c atContainer state₁ evaluates made₁ => ?_
  cases indexed : env.types.element c.type with
  | none => exact Yields.fails trivial
  | some element =>
      refine (positionEmits state₁ made₁.ready made₁.keeps).bind
        fun p atPosition state₂ evaluates' made₂ => ?_
      by_cases differ : p.type ≠ Registry.int
      · simp only [if_pos differ]
        exact Yields.fails_bind trivial
      simp only [if_neg differ]
      refine (valueIr_yields env element).bind ?_
      rintro _ _ ⟨valued, rfl, rfl⟩
      refine (operandOf_emits env made₂.ready c).bind ?_
      rintro base loading state₃ ⟨c', loads⟩ made₃
      refine (obtainValue_emits env made₃.ready p).bind ?_
      rintro ⟨⟨_, offset⟩, p'⟩ loading' state₄ ⟨rfl, loads'⟩ made₄
      refine define_emits made₄.ready
        (fun dest => .elementPtr dest ⟨env.types.ir element⟩ base [⟨⟨env.types.ir p.type⟩, offset⟩])
        (fun _ => rfl) (fun _ => rfl) fun n state₅ made₅ => ?_
      refine (release_emits env made₅.ready p').last fun _ releasing releases => ?_
      exact ⟨c, p, atContainer, atPosition, evaluates, evaluates',
        .intro indexed (not_ne_iff.mp differ) valued loads loads' releases⟩

theorem checkArgument_yields (entry : MethodEntry) (found : TypeId) :
    Yields (checkArgument env entry found) state fun _ later =>
      Translation.Accepts env.types entry found ∧ later = state := by
  unfold checkArgument
  cases argument : entry.argument with
  | none => exact Yields.done ⟨by simp [Translation.Accepts, argument], rfl⟩
  | some name =>
      refine (ofExcept_yields (FailsProperly.resolve env.types name)).bind ?_
      rintro expected _ ⟨resolved, rfl⟩
      by_cases differ : expected ≠ found
      · simp only [if_pos differ]
        exact Yields.fails trivial
      · simp only [if_neg differ]
        refine Yields.done ⟨?_, rfl⟩
        simpa [Translation.Accepts, argument] using not_ne_iff.mp differ ▸ resolved

theorem binary_emits (op : BinaryOperator) {left right : Lowering Value}
    {leftRel rightRel : Value → Code → Prop} (leftEmits : Emits slots left state leftRel)
    (rightEmits : ∀ later, later.Ready slots → state.Keeps later → Emits slots right later rightRel) :
    Emits slots (binary env op left right) state fun value code =>
      ∃ l r atLeft atRight operating, leftRel l atLeft ∧ rightRel r atRight ∧
        Translation.Operates env op l r operating value ∧
        code = .seq atLeft (.seq atRight operating) := by
  refine leftEmits.bind fun l atLeft state₁ evaluates made₁ => ?_
  refine (rightEmits state₁ made₁.ready made₁.keeps).bind
    fun r atRight state₂ evaluates' made₂ => ?_
  cases method : env.types.method l.type op.method with
  | none => exact Yields.fails trivial
  | some entry =>
      refine (checkArgument_yields env entry r.type).bind ?_
      rintro _ _ ⟨accepts, rfl⟩
      refine Yields.bind (dispatch_emits env made₂.ready _ [l, r]) ?_
      rintro result state₃ ⟨calling, dispatches, made₃⟩
      refine (required_yields result).bind ?_
      rintro v _ ⟨rfl, rfl⟩
      split
      · next negated =>
          refine Yields.mono (negate_emits env made₃.ready v) ?_
          rintro w later ⟨negating, negates, made₄⟩
          exact ⟨_, ⟨l, r, atLeft, atRight, _, evaluates, evaluates',
            .negated method accepts dispatches negated negates, rfl⟩, made₃.seq made₄⟩
      · next plain =>
          exact Yields.done ⟨_, ⟨l, r, atLeft, atRight, _, evaluates, evaluates',
            .plain method accepts dispatches plain, rfl⟩, made₃⟩

/-! ## Expressions -/

theorem literal_emits (ready : state.Ready slots) (add : Pool → Value × Pool) {type : TypeId}
    (constant : ∀ pool, ∃ symbol, (add pool).1 = .constant type (.symbol symbol)) :
    Emits slots (literal add) state fun value code =>
      ∃ symbol, value = .constant type (.symbol symbol) ∧ code = .skip := by
  obtain ⟨symbol, eq⟩ := constant state.pool
  exact Yields.modifiesGet ⟨_, ⟨symbol, eq, rfl⟩, .of ready .skip ready.isOpen rfl ⟨rfl, rfl⟩⟩

theorem lookup_yields (name : String) :
    Yields (lookup name) state fun value later =>
      state.scopes.lookup name = some value ∧ later = state := by
  refine get_yields.bind ?_
  rintro _ _ ⟨rfl, rfl⟩
  split
  · next value found => exact Yields.done ⟨found, rfl⟩
  · exact refuse_yields fun _ => trivial

/-- The value of an expression that is used. -/
theorem required_emits {names : Names} {e : Expr} {step : Lowering (Option Value)}
    (emits : Emits slots step state fun value code =>
      Translation.Evaluates env names (.expr e) value.toList code) :
    Emits slots (step >>= required) state fun value code =>
      Translation.Evaluates env names (.expr e) [value] code := by
  refine Yields.bind emits ?_
  rintro result later ⟨code, evaluates, made⟩
  refine (required_yields result).mono ?_
  rintro value _ ⟨rfl, rfl⟩
  exact ⟨code, evaluates, made⟩

theorem callee_proper (name : String) (table : SignatureTable) :
    FailsProperly (Callee.resolve name table) := by
  unfold Callee.resolve
  split
  · exact .ok _
  · split
    · exact .ok _
    · exact .error trivial

theorem not_emits {names : Names} {operand : Expr} {step : Lowering Value}
    (emits : Emits slots step state fun value code =>
      Translation.Evaluates env names (.expr operand) [value] code) :
    Emits slots (step >>= fun value => coerceToBool env value >>= negate env) state
      fun value code => Translation.Evaluates env names (.expr (.not operand)) [value] code := by
  refine emits.bind fun v atOperand state₁ evaluates made₁ => ?_
  refine (coerceToBool_emits env made₁.ready v).bind fun w coercing state₂ coerces made₂ => ?_
  exact (negate_emits env made₂.ready w).mono fun result negating negates =>
    .not evaluates coerces negates

mutual

/-- Lowering an expression emits code that evaluates it. -/
theorem operand?_emits {names : Names} {state : FunctionState} (e : Expr) (ready : state.Ready slots)
    (known : state.names = names) :
    Emits slots (operand? env e) state fun value code =>
      Translation.Evaluates env names (.expr e) value.toList code := by
  cases e with
  | bool value | int value | float value | string value =>
      rw [operand?]
      refine (literal_emits ready _ fun _ => ⟨_, rfl⟩).map ?_
      rintro _ _ ⟨symbol, rfl, rfl⟩
      exact .literal rfl
  | name name =>
      rw [operand?]
      refine Yields.map (lookup_yields name) ?_
      rintro value _ ⟨found, rfl⟩
      subst known
      exact ⟨_, .name found, .of ready .read ready.isOpen rfl (.refl _)⟩
  | binary op left right =>
      rw [operand?]
      refine (binary_emits env op (required_emits env (operand?_emits left ready known))
        fun later ready' keeps => required_emits env
          (operand?_emits right ready' (keeps.names.trans known))).map ?_
      rintro value _ ⟨l, r, atLeft, atRight, operating, evaluates, evaluates', operates, rfl⟩
      exact .binary evaluates evaluates' operates
  | not operand =>
      rw [operand?]
      exact (not_emits env (required_emits env (operand?_emits operand ready known))).map
        fun _ _ evaluates => evaluates
  | and left right =>
      rw [operand?]
      refine (connect_emits env .and (required_emits env (operand?_emits left ready known))
        fun later ready' keeps => required_emits env
          (operand?_emits right ready' (keeps.names.trans known))).map ?_
      rintro value _ ⟨l, r, atLeft, atRight, evaluates, evaluates', connects⟩
      exact .and evaluates evaluates' connects
  | or left right =>
      rw [operand?]
      refine (connect_emits env .or (required_emits env (operand?_emits left ready known))
        fun later ready' keeps => required_emits env
          (operand?_emits right ready' (keeps.names.trans known))).map ?_
      rintro value _ ⟨l, r, atLeft, atRight, evaluates, evaluates', connects⟩
      exact .or evaluates evaluates' connects
  | ternary test onTrue onFalse =>
      rw [operand?]
      refine (choose_emits env (required_emits env (operand?_emits test ready known))
        (fun later ready' keeps => required_emits env
          (operand?_emits onTrue ready' (keeps.names.trans known)))
        fun later ready' keeps => required_emits env
          (operand?_emits onFalse ready' (keeps.names.trans known))).map ?_
      rintro value _ ⟨t, a, b, atTest, atTrue, atFalse, tested, evaluates, evaluates', chooses⟩
      exact .ternary tested evaluates evaluates' chooses
  | index container position =>
      rw [operand?]
      refine (element_emits env (required_emits env (operand?_emits container ready known))
        fun later ready' keeps => required_emits env
          (operand?_emits position ready' (keeps.names.trans known))).map ?_
      rintro value _ ⟨c, p, atContainer, atPosition, evaluates, evaluates', indexes⟩
      exact .index evaluates evaluates' indexes
  | call callee args =>
      rw [operand?]
      refine (ofExcept_yields (callee_proper callee env.signatures)).bind ?_
      rintro target _ ⟨resolved, rfl⟩
      refine (operands_emits args ready known).bind fun vs atArgs later evaluates made => ?_
      exact (dispatch_emits env made.ready target vs).mono fun result calling dispatches =>
        .call resolved evaluates dispatches

theorem operands_emits {names : Names} {state : FunctionState} (es : List Expr) (ready : state.Ready slots)
    (known : state.names = names) :
    Emits slots (operands env es) state fun values code =>
      Translation.Evaluates env names (.exprs es) values code := by
  cases es with
  | nil =>
      rw [operands]
      exact Emits.done ready .nil
  | cons first rest =>
      rw [operands]
      refine (required_emits env (operand?_emits first ready known)).bind
        fun value code later evaluates made => ?_
      refine (operands_emits rest made.ready (made.keeps.names.trans known)).last ?_
      exact fun values code' evaluates' => .cons evaluates evaluates'

end

theorem value_emits {names : Names} (e : Expr) (ready : state.Ready slots)
    (known : state.names = names) :
    Emits slots (value env e) state fun value code =>
      Translation.Evaluates env names (.expr e) [value] code :=
  required_emits env (operand?_emits env e ready known)

theorem effect_emits {names : Names} (e : Expr) (ready : state.Ready slots)
    (known : state.names = names) :
    Emits slots (effect env e) state fun _ code => ∃ values,
      Translation.Evaluates env names (.expr e) values code :=
  (operand?_emits env e ready known).map fun value _ evaluates => ⟨value.toList, evaluates⟩

end Lowering

end LlvmBackend
