import LlvmBackend.Proofs.Lowering.Expr
import LlvmBackend.Proofs.Supply

/-! # Statements

Lowering statements emits code that stands for them, and binds names as it goes.
-/

namespace LlvmBackend

open Ir FunctionState

namespace FunctionState

/-- Code was emitted from one state to another. Control is behind it unless the code ends with a
    return. -/
structure Runs (slots : List Instr) (state : FunctionState) (code : Code) (ended : Bool)
    (later : FunctionState) : Prop where
  build : Build none (state.site slots) code (later.site slots)
  valid : (later.site slots).Valid
  open_iff : (later.site slots).Open ↔ ended = false
  header : later.header = state.header

variable {slots : List Instr} {state later : FunctionState}

theorem terminated_iff (slots : List Instr) : state.builder.isTerminated = false ↔ (state.site slots).Open := by
  rw [Site.Open, terminator_eq]
  simp [Builder.isTerminated]

theorem terminated_of_not_open (closed : ¬ (state.site slots).Open) :
    state.builder.isTerminated = true := by
  simpa using mt (terminated_iff slots).mp closed

theorem Makes.runs {code : Code} (made : Makes slots state code later) :
    Runs slots state code false later :=
  ⟨made.build, made.ready.valid, by simp [made.ready.isOpen], made.keeps.header⟩

namespace Runs

variable {code : Code} {ended : Bool} (runs : Runs slots state code ended later)
include runs

theorem ready (goesOn : ended = false) : later.Ready slots :=
  ⟨runs.valid, runs.open_iff.mpr goesOn⟩

end Runs

theorem Runs.seq {first second : Code} {ended : Bool} {last : FunctionState}
    (runs₁ : Runs slots state first false later) (runs₂ : Runs slots later second ended last) :
    Runs slots state (.seq first second) ended last :=
  ⟨.seq runs₁.build (runs₁.open_iff.mpr rfl) runs₂.build, runs₂.valid, runs₂.open_iff,
    runs₂.header.trans runs₁.header⟩

end FunctionState

namespace Lowering

variable {slots : List Instr} {state : FunctionState} (env : Surroundings)

/-! ## Variables -/

theorem note_yields (slots : List Instr) (message : Note) :
    Yields (note message) state fun _ later =>
      later.site slots = state.site slots ∧ state.Keeps later :=
  .modifies ⟨rfl, rfl, rfl⟩

theorem functionName_yields : Yields functionName state fun _ later => later = state :=
  Yields.bind get_yields fun _ _ h => Yields.done h.2

theorem define_binds (slots : List Instr) (name : String) (value : Value) :
    Yields (define name value) state fun _ later =>
      later.site slots = state.site slots ∧ later.names = state.names.define name value ∧
        later.header = state.header :=
  .modifies ⟨rfl, rfl, rfl⟩

theorem takeSlot_yields (slots : List Instr) (name : String) (type : IrType) :
    Yields (modifyGet fun state =>
      let (storage, supply) := state.supply.uniqueName name
      let slot := Operand.named storage
      (slot, { state with
        supply, slots := slot :: state.slots, builder := state.builder.hoist (.alloca slot type) }) :
        Lowering Operand) state fun slot later =>
      slot = .named (state.names.freeName name) ∧
        later.site slots = (state.site slots).slotted (state.names.freeName name) type ∧
        later.names = state.names.slotted (state.names.freeName name) ∧
        later.header = state.header :=
  .modifiesGet ⟨rfl, rfl, rfl, rfl⟩

theorem newSlot_yields (slots : List Instr) (name : String) (type : TypeId) :
    Yields (newSlot env name type) state fun slot later =>
      type ≠ Registry.void ∧ slot = .named (state.names.freeName name) ∧
        later.site slots =
          (state.site slots).slotted (state.names.freeName name) ⟨env.types.ir type⟩ ∧
        later.names = state.names.slotted (state.names.freeName name) ∧
        later.header = state.header := by
  refine (valueIr_yields env type).bind ?_
  rintro _ state ⟨valued, rfl, rfl⟩
  refine (takeSlot_yields slots name ⟨env.types.ir type⟩).bind ?_
  rintro slot taken ⟨rfl, site, names, header⟩
  refine functionName_yields.bind ?_
  rintro function taken rfl
  refine (note_yields slots _).bind ?_
  rintro _ later ⟨site', keeps⟩
  exact Yields.done ⟨valued, rfl, site'.trans site, keeps.names.trans names,
    keeps.header.trans header⟩

theorem variableSlot_runs (ready : state.Ready slots) (name : String) (type : TypeId) :
    Yields (variableSlot env name type) state fun slot later => ∃ code,
      Translation.SlotFor env.types state.names name type slot code later.names ∧
        Runs slots state code false later := by
  refine get_yields.bind ?_
  rintro _ state ⟨rfl, rfl⟩
  have reusable : reusableSlot? state name type = state.names.reusable? name type := rfl
  rw [reusable]
  cases found : state.names.reusable? name type with
  | some slot => exact Yields.done ⟨_, .reused found, (Makes.skip ready).runs⟩
  | none =>
      refine (newSlot_yields env slots name type).mono ?_
      rintro _ later ⟨valued, rfl, site, names, header⟩
      have build : Build none (state.site slots)
          (.slot (state.names.freeName name) ⟨env.types.ir type⟩) (later.site slots) :=
        site ▸ .slot (Supply.freeName_not_mem _ _)
      refine ⟨_, ?_, build, site ▸ ready.valid.slotted _ _, ?_, header⟩
      · rw [names]
        exact .new found valued
      · rw [site]
        exact iff_of_true ready.isOpen rfl

/-- A variable that has its slot gets a value. -/
theorem define_runs {code : Code} {later : FunctionState} (name : String) (value : Value)
    (runs : Runs slots state code false later) :
    Yields (define name value) later fun _ last =>
      last.names = later.names.define name value ∧ Runs slots state code false last := by
  refine (define_binds slots name value).mono ?_
  rintro _ last ⟨site, names, header⟩
  exact ⟨names, site ▸ runs.build, site ▸ runs.valid, site ▸ runs.open_iff,
    header.trans runs.header⟩

theorem assign_runs {names : Names} (known : state.names = names) (target : String)
    {value : Lowering Value} {rel : Value → Code → Prop} (emits : Emits slots value state rel) :
    Yields (assign env target value) state fun _ later => ∃ v code loading operand v' slot slotting names',
      rel v code ∧ Translation.Loads env.types v loading operand v' ∧
        Translation.SlotFor env.types names target v.type slot slotting names' ∧
        later.names = names'.define target (.stable v.type slot) ∧
        Runs slots state (.seq code (.seq loading (.seq slotting
          (.instr (.write target v.type) (.store ⟨⟨env.types.ir v.type⟩, operand⟩ slot))))) false
          later := by
  refine Yields.bind emits ?_
  rintro v state₁ ⟨code, evaluates, made₁⟩
  refine Yields.bind (obtainValue_emits env made₁.ready v) ?_
  rintro ⟨⟨_, operand⟩, v'⟩ state₂ ⟨loading, ⟨rfl, loads⟩, made₂⟩
  refine (variableSlot_runs env made₂.ready target v'.type).bind ?_
  rintro slot state₃ ⟨slotting, slotFor, runs₃⟩
  refine Yields.bind (put_emits (runs₃.ready rfl) (.write target v.type) rfl rfl) ?_
  rintro _ state₄ ⟨_, rfl, made₄⟩
  have runs := made₁.runs.seq (made₂.runs.seq (runs₃.seq made₄.runs))
  rw [loads.type_eq, made₂.keeps.names.trans (made₁.keeps.names.trans known)] at slotFor
  refine (define_runs target _ runs).mono ?_
  rintro _ later ⟨eq, runs⟩
  rw [made₄.keeps.names, loads.type_eq] at eq
  exact ⟨v, code, loading, operand, v', slot, slotting, _, evaluates, loads, slotFor, eq, runs⟩

/-! ## Suites of their own -/

/-- A suite goes on at a block unless it left the function. -/
theorem branchIfOpen_builds {start middle : FunctionState} {code : Code} {ended : Bool}
    (runs : Runs slots start code ended middle) (fin : BlockId) :
    Yields (branchIfOpen fin) middle fun _ later =>
      Build (some fin) (start.site slots) (code.leading ended (middle.site slots).current fin)
        (later.site slots) ∧ middle.Keeps later := by
  refine isTerminated_yields.bind ?_
  rintro _ middle ⟨rfl, rfl⟩
  cases ended with
  | false =>
      have isOpen := runs.open_iff.mpr rfl
      simp only [(terminated_iff slots).mpr isOpen]
      refine (terminate_yields (runs.ready rfl) _).mono ?_
      rintro _ later ⟨eq, keeps⟩
      exact ⟨eq ▸ .leads runs.build isOpen, keeps⟩
  | true =>
      have closed : ¬ (middle.site slots).Open := by simp [runs.open_iff]
      simp only [terminated_of_not_open closed]
      exact Yields.done ⟨.returns runs.build closed, .refl middle⟩

/-! ## Loops -/

section Loops

variable {start middle turning turned later : FunctionState} {test turn : Code} {flag : Operand}
  {x y z : String}

theorem testReady (ready : state.Ready slots)
    (jumped : start.site slots =
      (state.site slots).enterThree (.br (state.site slots).size) x y z) :
    start.Ready slots := by
  have course := LoopTest.of ready.valid ready.isOpen x y z
  exact ⟨jumped ▸ course.side.grows.after, jumped ▸ course.side.isOpen⟩

theorem loopTurn (ready : state.Ready slots)
    (jumped : start.site slots =
      (state.site slots).enterThree (.br (state.site slots).size) x y z)
    (made : Makes slots start test middle)
    (branched : turning.site slots = (middle.site slots).leave
      (.condBr flag ((state.site slots).size + 1) ((state.site slots).size + 2))
      ((state.site slots).size + 1)) :
    LoopTurn (.condBr flag ((state.site slots).size + 1) ((state.site slots).size + 2))
      (state.site slots) (middle.site slots) (turning.site slots) := by
  have way := made.built (testReady ready jumped)
  rw [jumped] at way
  exact branched ▸ (LoopTest.of ready.valid ready.isOpen x y z).turn way made.ready.isOpen flag

theorem turnReady {branch : Terminator} {site : Site}
    (course : LoopTurn branch site (middle.site slots) (turning.site slots)) :
    turning.Ready slots :=
  ⟨course.side.grows.after, course.side.isOpen⟩

/-- Control stands behind a loop. -/
theorem looped (ready : state.Ready slots)
    (jumped : start.site slots =
      (state.site slots).enterThree (.br (state.site slots).size) x y z)
    (made : Makes slots start test middle)
    (branched : turning.site slots = (middle.site slots).leave
      (.condBr flag ((state.site slots).size + 1) ((state.site slots).size + 2))
      ((state.site slots).size + 1))
    (build : Build (some (state.site slots).size) (turning.site slots) turn (turned.site slots))
    (left : later.site slots = (turned.site slots).enter ((state.site slots).size + 2))
    (header : later.header = state.header) :
    Runs slots state
      (.seq (.jump (state.site slots).current (state.site slots).size)
        (.loop ((state.site slots).size + 1) ((state.site slots).size + 2) test flag turn)) false
      later := by
  have course := loopTurn ready jumped made branched
  have way₁ := made.built (testReady ready jumped)
  have way₂ := build.built (turnReady course).valid (turnReady course).isOpen (by simpa using course.back)
  have built := made.build
  rw [jumped] at way₁ built
  have whole : LoopCourse _ (state.site slots) _ (middle.site slots) (turning.site slots)
      (turned.site slots) := ⟨.of ready.valid ready.isOpen x y z, way₁, course, way₂⟩
  rw [branched] at build
  refine ⟨left ▸ .loop built made.ready.isOpen build, left ▸ whole.built.grows.after, ?_, header⟩
  rw [left]
  exact iff_of_true (whole.wait.open_enter way₂.grows.after) rfl

end Loops

/-- The body of a loop or the suite of a condition, from a state that knows the given names. -/
def Works (slots : List Instr) (names : Names) (header : Builder) (body : Lowering Unit)
    (rel : Names → Bool → Code → Prop) : Prop :=
  ∀ state : FunctionState, state.Ready slots → state.names = names → state.header = header →
    Yields body state fun _ later => ∃ ended code,
      rel later.names ended code ∧ Runs slots state code ended later

theorem loopWhile_runs {names : Names} (ready : state.Ready slots) (known : state.names = names)
    {test : Lowering Value} {body : Lowering Unit} {testRel : Value → Code → Prop}
    {rel : Names → Bool → Code → Prop}
    (testEmits : ∀ later, later.Ready slots → later.names = names →
      Emits slots test later testRel)
    (works : Works slots names state.header body rel) :
    Yields (loopWhile (condition env test) body) state fun _ later =>
      ∃ v atTest testing flag ended turn source head bodyStart fin turnEnd,
        testRel v atTest ∧ Translation.Tests env v testing flag ∧ rel later.names ended turn ∧
        Runs slots state
          (.seq (.jump source head) (.loop bodyStart fin (.seq atTest testing) flag
            (turn.leading ended turnEnd head))) false later := by
  refine threeBlocks_yields ready _ _ _ (fun head _ _ => .br head) fun start jumped keeps₁ => ?_
  have ready₁ := testReady ready jumped
  refine Yields.bind
    (condition_emits env (testEmits start ready₁ (keeps₁.names.trans known))) ?_
  rintro flag middle ⟨_, ⟨v, atTest, testing, tested, tests, rfl⟩, made⟩
  refine leave_yields made.ready _ _ fun turning branched keeps₂ => ?_
  have course := loopTurn ready jumped made branched
  have kept := (keeps₁.trans made.keeps).trans keeps₂
  refine (works turning (turnReady course) (kept.names.trans known) kept.header).bind ?_
  rintro _ ending ⟨ended, turn, related, runs⟩
  refine (branchIfOpen_builds runs _).bind ?_
  rintro _ turned ⟨build, keeps₃⟩
  refine (switchTo_yields slots _).mono ?_
  rintro _ later ⟨left, keeps₄⟩
  have names := keeps₄.names.trans keeps₃.names
  have header := (keeps₄.header.trans keeps₃.header).trans (runs.header.trans kept.header)
  exact ⟨v, atTest, testing, flag, ended, turn, _, _, _, _, _, tested, tests, names ▸ related,
    looped ready jumped made branched build left header⟩

theorem iteration_yields (source : TypeId) :
    Yields (iteration env source) state fun result later => ∃ entry,
      env.types.method source next = some entry ∧ result.1 = entry.symbol ∧
        env.types.resolve entry.returns = .ok result.2 ∧ later = state := by
  unfold iteration
  cases method : env.types.method source next with
  | none => exact Yields.fails trivial
  | some entry =>
      refine (ofExcept_yields (FailsProperly.resolve env.types entry.returns)).bind ?_
      rintro element _ ⟨resolved, rfl⟩
      exact Yields.done ⟨entry, rfl, rfl, resolved, rfl⟩

theorem loopFor_runs {names : Names} (known : state.names = names) (target : String)
    {source : Lowering Value} {body : Lowering Unit} {sourceRel : Value → Code → Prop}
    {rel : Names → Names → Bool → Code → Prop} (sourceEmits : Emits slots source state sourceRel)
    (works : ∀ bound, Works slots bound state.header body (rel bound)) :
    Yields (loopFor env target source body) state fun _ later =>
      ∃ v atSource entry element placing iterator v' slot slotting names' ended turn releasing
        source' head bodyStart fin turnEnd n,
        sourceRel v atSource ∧ env.types.method v.type next = some entry ∧
        env.types.resolve entry.returns = .ok element ∧
        Translation.Places env.types v placing iterator v' ∧
        Translation.SlotFor env.types names target element slot slotting names' ∧
        element ≠ Registry.void ∧
        rel (names'.define target (.stable element slot)) later.names ended turn ∧
        Translation.Releases env.types v' releasing ∧
        Runs slots state
          (.seq atSource (.seq placing (.seq slotting (.seq
            (.seq (.jump source' head) (.loop bodyStart fin
              (.instr (.write target element) (.call (some (.temp n)) .i1 entry.symbol
                [⟨.ptr ⟨env.types.ir v.type⟩, iterator⟩, ⟨.ptr ⟨env.types.ir element⟩, slot⟩]))
              (.temp n) (turn.leading ended turnEnd head)))
            releasing)))) false later := by
  refine Yields.bind sourceEmits ?_
  rintro v state₁ ⟨atSource, evaluates, made₁⟩
  refine (iteration_yields env v.type).bind ?_
  rintro ⟨_, element⟩ state₁ ⟨entry, method, rfl, resolved, rfl⟩
  refine Yields.bind (obtainAddress_emits env made₁.ready v) ?_
  rintro ⟨⟨_, iterator⟩, v'⟩ state₂ ⟨placing, ⟨rfl, places⟩, made₂⟩
  refine (variableSlot_runs env made₂.ready target element).bind ?_
  rintro slot state₃ ⟨slotting, slotFor, runs₃⟩
  refine (valueIr_yields env element).bind ?_
  rintro _ state₃ ⟨valued, rfl, rfl⟩
  refine (define_runs target _ runs₃).bind ?_
  rintro _ state₄ ⟨bound, runs₄⟩
  have ready := runs₄.ready rfl
  refine threeBlocks_yields ready _ _ _ (fun head _ _ => .br head) fun start jumped keeps₁ => ?_
  have ready₁ := testReady ready jumped
  refine define_yields ready₁
    (fun more => .call (some more) .i1 entry.symbol
      [⟨.ptr ⟨env.types.ir v.type⟩, iterator⟩, ⟨.ptr ⟨env.types.ir element⟩, slot⟩])
    (fun _ => rfl) fun middle called keeps₂ => ?_
  have made := define_makes ready₁ (.write target element)
    (fun more => .call (some more) .i1 entry.symbol
      [⟨.ptr ⟨env.types.ir v.type⟩, iterator⟩, ⟨.ptr ⟨env.types.ir element⟩, slot⟩])
    (fun _ => rfl) (fun _ => rfl) called keeps₂
  refine leave_yields made.ready _ _ fun turning branched keeps₃ => ?_
  have course := loopTurn ready jumped made branched
  have kept := (keeps₁.trans keeps₂).trans keeps₃
  have header := (runs₄.header.trans made₂.keeps.header).trans made₁.keeps.header
  refine (works _ turning (turnReady course) (kept.names.trans bound)
    (kept.header.trans header)).bind ?_
  rintro _ ending ⟨ended, turn, related, runs⟩
  refine (branchIfOpen_builds runs _).bind ?_
  rintro _ turned ⟨build, keeps₄⟩
  refine (switchTo_yields slots _).bind ?_
  rintro _ state₅ ⟨left, keeps₅⟩
  have loop := looped ready jumped made branched build left
    ((keeps₄.trans keeps₅).header.trans (runs.header.trans kept.header))
  refine Yields.mono (release_emits env (loop.ready rfl) v') ?_
  rintro _ later ⟨releasing, releases, made₅⟩
  rw [made₂.keeps.names.trans (made₁.keeps.names.trans known)] at slotFor
  rw [← ((keeps₄.trans keeps₅).trans made₅.keeps).names] at related
  exact ⟨v, atSource, entry, element, placing, iterator, v', slot, slotting, _, ended, turn,
    releasing, _, _, _, _, _, _, evaluates, method, resolved, places, slotFor, valued, related,
    releases, made₁.runs.seq (made₂.runs.seq (runs₄.seq (loop.seq made₅.runs)))⟩

/-! ## Returns -/

theorem terminate_runs (ready : state.Ready slots) (value : Option TypedOperand) :
    Yields (terminate (.ret value)) state fun _ later =>
      Runs slots state (.ret value) true later ∧ state.Keeps later := by
  refine (terminate_yields ready (.ret value)).mono ?_
  rintro _ later ⟨eq, keeps⟩
  have valid := (Built.ret ready.valid ready.isOpen value).grows.after
  refine ⟨⟨eq ▸ .ret, eq ▸ valid, ?_, keeps.header⟩, keeps⟩
  rw [eq]
  exact iff_of_false (Site.not_open_close _) (by simp)

theorem refuseReturn_yields {α β : Type} (expected found : TypeId) {next : α → Lowering β}
    {post : β → FunctionState → Prop} :
    Yields (refuseReturn env expected found >>= next) state post := by
  have refused : Yields (refuseReturn env expected found : Lowering α) state fun _ _ => False :=
    refuse_yields fun _ => trivial
  exact refused.bind fun _ _ => False.elim

theorem returnValue_runs (ready : state.Ready slots) (expected : TypeId) (v : Value) :
    Yields (returnValue env expected v) state fun _ later => ∃ loading operand v',
      expected = v.type ∧ Translation.Loads env.types v loading operand v' ∧
        Runs slots state (.seq loading (.seq
          (.instr .result (.store ⟨⟨env.types.ir v.type⟩, operand⟩ (.named resultName)))
          (.ret none))) true later ∧ state.Keeps later := by
  unfold returnValue
  by_cases differ : v.type ≠ expected
  · simp only [if_pos differ]
    exact refuseReturn_yields env _ _
  simp only [if_neg differ]
  refine Yields.bind (obtainValue_emits env ready v) ?_
  rintro ⟨⟨_, operand⟩, v'⟩ state₁ ⟨loading, ⟨rfl, loads⟩, made₁⟩
  refine Yields.bind (put_emits made₁.ready .result rfl rfl) ?_
  rintro _ state₂ ⟨_, rfl, made₂⟩
  refine (terminate_runs made₂.ready none).mono ?_
  rintro _ later ⟨runs, keeps⟩
  exact ⟨loading, operand, v', (not_ne_iff.mp differ).symm, loads,
    made₁.runs.seq (made₂.runs.seq runs), (made₁.keeps.trans made₂.keeps).trans keeps⟩

theorem leave_runs {names : Names} (ready : state.Ready slots) (known : state.names = names)
    (expr : Option Expr) :
    Yields (leave env expr) state fun _ later => ∃ code,
      Translation.Leaves env names expr code ∧ Runs slots state code true later ∧
        later.names = names := by
  unfold leave
  cases outcome : env.outcome with
  | status =>
      cases expr with
      | none =>
          refine (terminate_runs ready _).mono ?_
          rintro _ later ⟨runs, keeps⟩
          exact ⟨_, .bare (.inl ⟨outcome, rfl⟩), runs, keeps.names.trans known⟩
      | some expr =>
          refine Yields.bind (effect_emits env expr ready known) ?_
          rintro _ middle ⟨code, ⟨vs, evaluates⟩, made⟩
          refine (terminate_runs made.ready _).mono ?_
          rintro _ later ⟨runs, keeps⟩
          exact ⟨_, .dropped (.inl ⟨outcome, rfl⟩) evaluates, made.runs.seq runs,
            keeps.names.trans (made.keeps.names.trans known)⟩
  | result expected =>
      cases expr with
      | none =>
          by_cases void : expected ≠ Registry.void
          · simp only [if_pos void]
            exact refuseReturn_yields env _ _
          · simp only [if_neg void]
            refine (terminate_runs ready none).mono ?_
            rintro _ later ⟨runs, keeps⟩
            rw [not_ne_iff.mp void] at outcome
            exact ⟨_, .bare (.inr ⟨outcome, rfl⟩), runs, keeps.names.trans known⟩
      | some expr =>
          by_cases void : expected = Registry.void
          · simp only [if_pos void]
            refine Yields.bind (effect_emits env expr ready known) ?_
            rintro _ middle ⟨code, ⟨vs, evaluates⟩, made⟩
            refine (terminate_runs made.ready none).mono ?_
            rintro _ later ⟨runs, keeps⟩
            rw [void] at outcome
            exact ⟨_, .dropped (.inr ⟨outcome, rfl⟩) evaluates, made.runs.seq runs,
              keeps.names.trans (made.keeps.names.trans known)⟩
          · simp only [if_neg void]
            refine Yields.bind (value_emits env expr ready known) ?_
            rintro v middle ⟨code, evaluates, made⟩
            refine (returnValue_runs env made.ready expected v).mono ?_
            rintro _ later ⟨loading, operand, v', rfl, loads, runs, keeps⟩
            exact ⟨_, .result outcome void evaluates loads, made.runs.seq runs,
              keeps.names.trans (made.keeps.names.trans known)⟩

/-! ## Chains of conditions -/

/-- The arms of a chain were lowered, and control stands behind the chain. -/
structure Chained (slots : List Instr) (fin : BlockId) (state : FunctionState) (code : Code)
    (later : FunctionState) : Prop where
  build : ∃ site, Build (some fin) (state.site slots) code site ∧ later.site slots = site.enter fin
  header : later.header = state.header

theorem lastArm_chained {names : Names} (ready : state.Ready slots) (known : state.names = names)
    (fin : BlockId) {body : Lowering Unit} {rel : Names → Bool → Code → Prop}
    (works : Works slots names state.header body rel) :
    Yields (lastArm fin body) state fun _ later => ∃ ended code bodyEnd,
      rel later.names ended code ∧
        Chained slots fin state (code.leading ended bodyEnd fin) later := by
  refine (works state ready known rfl).bind ?_
  rintro _ ending ⟨ended, code, related, runs⟩
  refine (branchIfOpen_builds runs fin).bind ?_
  rintro _ turned ⟨build, keeps₁⟩
  refine (switchTo_yields slots fin).mono ?_
  rintro _ later ⟨left, keeps₂⟩
  have keeps := keeps₁.trans keeps₂
  exact ⟨ended, code, _, keeps.names ▸ related, ⟨_, build, left⟩, keeps.header.trans runs.header⟩

theorem guardedArm_last {names : Names} {fin : BlockId} (ready : state.Ready slots)
    (known : state.names = names) (exit : (state.site slots).Exit fin) (index : Nat)
    {test : Lowering Value} {body : Lowering Unit} {testRel : Value → Code → Prop}
    {rel : Names → Bool → Code → Prop} (testEmits : Emits slots test state testRel)
    (works : Works slots names state.header body rel) :
    Yields (guardedArm fin index [] (condition env test) body) state fun _ later =>
      ∃ v atTest testing flag ended code bodyStart bodyEnd,
        testRel v atTest ∧ Translation.Tests env v testing flag ∧ rel later.names ended code ∧
          Chained slots fin state (.seq (.seq atTest testing)
            (.fork .plain flag bodyStart fin (code.leading ended bodyEnd fin) .skip)) later := by
  refine Yields.bind (condition_emits env testEmits) ?_
  rintro flag middle ⟨_, ⟨v, atTest, testing, tested, tests, rfl⟩, made⟩
  simp only [nextArm, pure_bind]
  refine oneBlock_yields made.ready _ (fun suite => .condBr flag suite fin)
    fun start branched keeps₁ => ?_
  have course := LastSuite.of made.ready.valid made.ready.isOpen (made.exit ready exit) flag
    s!"if-suite-{index}"
  have ready₁ : start.Ready slots :=
    ⟨branched ▸ course.side.grows.after, branched ▸ course.side.isOpen⟩
  have kept := made.keeps.trans keeps₁
  refine (works start ready₁ (kept.names.trans known) kept.header).bind ?_
  rintro _ ending ⟨ended, code, related, runs⟩
  refine (branchIfOpen_builds runs fin).bind ?_
  rintro _ turned ⟨build, keeps₂⟩
  refine (switchTo_yields slots fin).mono ?_
  rintro _ later ⟨left, keeps₃⟩
  have keeps := keeps₂.trans keeps₃
  rw [branched] at build
  exact ⟨v, atTest, testing, flag, ended, code, _, _, tested, tests, keeps.names ▸ related,
    ⟨_, .seq made.build made.ready.isOpen (.lastArm build), left⟩,
    keeps.header.trans (runs.header.trans kept.header)⟩

/-- An arm that others follow leads to the next of them. -/
theorem guardedArm_runs {names : Names} {fin : BlockId} (ready : state.Ready slots)
    (known : state.names = names) (exit : (state.site slots).Exit fin) (index : Nat)
    (another : Arm) (rest : List Arm)
    {test : Lowering Value} {body : Lowering Unit} {testRel : Value → Code → Prop}
    {rel : Names → Bool → Code → Prop} (testEmits : Emits slots test state testRel)
    (works : Works slots names state.header body rel) :
    Yields (guardedArm fin index (another :: rest) (condition env test) body) state fun _ later =>
      later.Ready slots ∧ (later.site slots).Exit fin ∧ later.header = state.header ∧
      ∃ v atTest testing flag ended code bodyStart bodyEnd otherwise,
        testRel v atTest ∧ Translation.Tests env v testing flag ∧ rel later.names ended code ∧
          ∀ code' last, Chained slots fin later code' last → Chained slots fin state
            (.seq (.seq atTest testing)
              (.fork .plain flag bodyStart otherwise (code.leading ended bodyEnd fin) code'))
            last := by
  refine Yields.bind (condition_emits env testEmits) ?_
  rintro flag middle ⟨_, ⟨v, atTest, testing, tested, tests, rfl⟩, made⟩
  obtain ⟨hint, named⟩ : ∃ hint, nextArm fin (index + 1) (another :: rest) = newBlock hint := by
    obtain ⟨condition, stmts⟩ := another
    cases condition <;> exact ⟨_, rfl⟩
  rw [named]
  refine twoBlocks_yields made.ready _ _ (fun suite otherwise => .condBr flag suite otherwise)
    fun start branched keeps₁ => ?_
  have course := Suite.of made.ready.valid made.ready.isOpen (made.exit ready exit) flag
    s!"if-suite-{index}" hint
  have ready₁ : start.Ready slots :=
    ⟨branched ▸ course.side.grows.after, branched ▸ course.side.isOpen⟩
  have kept := made.keeps.trans keeps₁
  refine (works start ready₁ (kept.names.trans known) kept.header).bind ?_
  rintro _ ending ⟨ended, code, related, runs⟩
  refine (branchIfOpen_builds runs fin).bind ?_
  rintro _ turned ⟨build, keeps₂⟩
  refine (switchTo_yields slots _).mono ?_
  rintro _ later ⟨left, keeps₃⟩
  have keeps := keeps₂.trans keeps₃
  rw [branched] at build
  have way := build.built course.side.grows.after course.side.isOpen (by simpa using course.exit)
  have other := course.rest way
  have ready₂ : later.Ready slots := ⟨left ▸ other.side.grows.after, left ▸ other.side.isOpen⟩
  have header := keeps.header.trans (runs.header.trans kept.header)
  refine ⟨ready₂, left ▸ other.exit, header, v, atTest, testing, flag, ended, code,
    (middle.site slots).size, (ending.site slots).current, (middle.site slots).size + 1, tested,
    tests, keeps.names ▸ related, ?_⟩
  rintro code' last ⟨⟨site, build', left'⟩, header'⟩
  rw [left] at build'
  exact ⟨⟨site, .seq made.build made.ready.isOpen (.arm build build'), left'⟩,
    header'.trans header⟩

/-- Control stands behind a chain of conditions. -/
theorem chained {start later : FunctionState} {code : Code} {hint : String}
    (ready : state.Ready slots) (fresh : start.site slots = (state.site slots).fresh hint)
    (keeps : state.Keeps start)
    (chained : Chained slots (state.site slots).size start code later) :
    Runs slots state code false later := by
  obtain ⟨⟨site, build, left⟩, header⟩ := chained
  rw [fresh] at build
  obtain ⟨_, wait, way⟩ := chainCourse ready.valid ready.isOpen
    fun valid isOpen exit => build.built valid isOpen (by simpa using exit)
  have built : Built none (state.site slots) (site.enter (state.site slots).size) :=
    .chain ready.valid ready.isOpen fun valid isOpen exit =>
      build.built valid isOpen (by simpa using exit)
  refine ⟨left ▸ .chain build, left ▸ built.grows.after, ?_, header.trans keeps.header⟩
  rw [left]
  exact iff_of_true (wait.open_enter way.grows.after) rfl

/-! ## Statements -/

theorem suite_terminated {stmts : List Stmt} (closed : ¬ (state.site slots).Open) :
    Yields (suite env stmts) state fun _ later => later = state := by
  cases stmts with
  | nil =>
      rw [suite]
      exact Yields.done rfl
  | cons first rest =>
      rw [suite]
      refine isTerminated_yields.bind ?_
      rintro _ state ⟨rfl, rfl⟩
      simp only [terminated_of_not_open closed]
      exact Yields.done rfl

theorem suite_works {names : Names} {header : Builder} {body : List Stmt}
    (runs : ∀ {state : FunctionState}, state.Ready slots →
      Yields (suite env body) state fun _ later => ∃ ended code,
        Translation.Lowers env (.suite body) state.names later.names ended code ∧
          Runs slots state code ended later) :
    Works slots names header (suite env body) (Translation.Lowers env (.suite body) names) :=
  fun _ ready known _ => known ▸ runs ready

mutual

/-- Lowering a statement emits code that stands for it. -/
theorem stmt_runs {state : FunctionState} (s : Stmt) (ready : state.Ready slots) :
    Yields (stmt env s) state fun _ later => ∃ ended code,
      Translation.Lowers env (.stmt s) state.names later.names ended code ∧
        Runs slots state code ended later := by
  cases s with
  | assign target e =>
      rw [stmt]
      refine (assign_runs env rfl target (value_emits env e ready rfl)).mono ?_
      rintro _ later ⟨v, code, loading, operand, v', slot, slotting, names', evaluates, loads,
        slotFor, bound, runs⟩
      exact ⟨_, _, bound ▸ .assign evaluates loads slotFor, runs⟩
  | ifChain chain =>
      cases chain with
      | nil =>
          rw [stmt]
          refine freshBlock_yields ready _ fun start fresh ready₁ keeps₁ => ?_
          refine (terminate_yields ready₁ _).bind ?_
          rintro _ closing ⟨closed, keeps₂⟩
          refine (switchTo_yields slots _).mono ?_
          rintro _ later ⟨left, keeps₃⟩
          have build : Build (some (state.site slots).size) (start.site slots)
              (.seq .skip (.jump (start.site slots).current (state.site slots).size))
              (closing.site slots) := closed ▸ .leads .skip ready₁.isOpen
          have keeps := keeps₂.trans keeps₃
          exact ⟨_, _, (keeps₁.trans keeps).names ▸ .noArms,
            chained ready fresh keeps₁ ⟨⟨_, build, left⟩, keeps.header⟩⟩
      | cons first rest =>
          rw [stmt]
          refine freshBlock_yields ready _ fun start fresh ready₁ keeps₁ => ?_
          have exit : (start.site slots).Exit (state.site slots).size := by
            rw [fresh]
            exact (ready.valid.pending_fresh _).exit (ready.valid.fresh _)
          refine (arms_chained (state.site slots).size 0 (first :: rest) (by simp) ready₁ exit).mono ?_
          rintro _ later ⟨ended, code, lowers, behind⟩
          rw [keeps₁.names] at lowers
          exact ⟨_, _, .ifChain lowers, chained ready fresh keeps₁ behind⟩
  | whileLoop test body =>
      rw [stmt]
      refine (loopWhile_runs env ready rfl (fun later ready' => value_emits env test ready')
        (suite_works env fun ready => suite_runs body ready)).mono ?_
      · rintro _ later ⟨v, atTest, testing, flag, ended, turn, source, head, bodyStart, fin, turnEnd,
          tested, tests, lowers, runs⟩
        exact ⟨_, _, .whileLoop tested tests lowers, runs⟩
  | forLoop target source body =>
      rw [stmt]
      refine (loopFor_runs env rfl target (value_emits env source ready rfl)
        fun bound => suite_works env fun ready => suite_runs body ready).mono ?_
      · rintro _ later ⟨v, atSource, entry, element, placing, iterator, v', slot, slotting, names',
          ended, turn, releasing, source', head, bodyStart, fin, turnEnd, n, evaluates, method,
          resolved, places, slotFor, valued, lowers, releases, runs⟩
        exact ⟨_, _, .forLoop evaluates method resolved places slotFor valued lowers releases, runs⟩
  | ret expr =>
      rw [stmt]
      refine (leave_runs env ready rfl expr).mono ?_
      rintro _ later ⟨code, leaves, runs, names⟩
      rw [names]
      exact ⟨_, _, .ret leaves, runs⟩
  | effect expr =>
      rw [stmt]
      refine Yields.mono (effect_emits env expr ready rfl) ?_
      rintro _ later ⟨code, ⟨vs, evaluates⟩, made⟩
      rw [made.keeps.names]
      exact ⟨_, _, .effect evaluates, made.runs⟩

theorem suite_runs {state : FunctionState} (stmts : List Stmt) (ready : state.Ready slots) :
    Yields (suite env stmts) state fun _ later => ∃ ended code,
      Translation.Lowers env (.suite stmts) state.names later.names ended code ∧
        Runs slots state code ended later := by
  cases stmts with
  | nil =>
      rw [suite]
      exact Yields.done ⟨_, _, .nil, (Makes.skip ready).runs⟩
  | cons first rest =>
      rw [suite]
      refine isTerminated_yields.bind ?_
      rintro _ state ⟨rfl, rfl⟩
      simp only [ready.not_terminated]
      refine (stmt_runs first ready).bind ?_
      rintro _ middle ⟨ended, code, lowers, runs⟩
      cases ended with
      | true =>
          have closed : ¬ (middle.site slots).Open := by simp [runs.open_iff]
          refine (suite_terminated env closed).mono ?_
          rintro _ middle rfl
          exact ⟨_, _, .ends lowers, runs⟩
      | false =>
          refine (suite_runs rest (runs.ready rfl)).mono ?_
          rintro _ later ⟨ended, code', lowers', runs'⟩
          exact ⟨_, _, .goesOn lowers lowers', runs.seq runs'⟩

theorem arms_chained {state : FunctionState} (fin : BlockId) (index : Nat) (chain : List Arm)
    (given : chain ≠ []) (ready : state.Ready slots) (exit : (state.site slots).Exit fin) :
    Yields (arms env fin index chain) state fun _ later => ∃ ended code,
      Translation.Lowers env (.arms fin chain) state.names later.names ended code ∧
        Chained slots fin state code later := by
  match chain with
  | .mk none body :: _ =>
      rw [arms]
      refine (lastArm_chained ready rfl fin 
        (suite_works env fun ready => suite_runs body ready)).mono ?_
      rintro _ later ⟨ended, code, bodyEnd, lowers, behind⟩
      exact ⟨_, _, .otherwise lowers, behind⟩
  | [.mk (some test) body] =>
      rw [arms]
      refine Yields.bind (guardedArm_last env ready rfl exit index (value_emits env test ready rfl)
        (suite_works env fun ready => suite_runs body ready)) ?_
      rintro _ later ⟨v, atTest, testing, flag, ended, code, bodyStart, bodyEnd, tested, tests,
        lowers, behind⟩
      rw [arms]
      exact Yields.done ⟨_, _, .lastArm tested tests lowers, behind⟩
  | .mk (some test) body :: another :: rest =>
      rw [arms]
      refine Yields.bind (guardedArm_runs env ready rfl exit index another rest
        (value_emits env test ready rfl)
        (suite_works env fun ready => suite_runs body ready)) ?_
      rintro _ middle ⟨ready', exit', header, v, atTest, testing, flag, ended, code, bodyStart,
        bodyEnd, otherwise, tested, tests, lowers, behind⟩
      refine (arms_chained fin (index + 1) (another :: rest) (by simp) ready' exit').mono ?_
      rintro _ later ⟨ended', code', lowers', behind'⟩
      exact ⟨_, _, .arm tested tests lowers lowers', behind code' later behind'⟩

end

end Lowering

end LlvmBackend
