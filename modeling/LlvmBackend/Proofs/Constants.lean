import LlvmBackend.Proofs.Drafts
import LlvmBackend.Proofs.Textual.Stmt

/-! # Constants of modules

The constants of a module are those of the literals in its text, in their order, and each literal is
lowered to the address of its own. Main statement: `Codegen.generate_constants`.
-/

namespace LlvmBackend

open Ir Pooled
open Literal (ofSuite ofFunctions)

/-! ## Constants of literals -/

namespace Literal

variable {types : Registry}

/-- If there is a truth value among literals, both truth values have their constants. -/
theorem bool_mem_constants {before literals : List Literal} (none : before.all isNumbered)
    (some : literals.all isNumbered = false) (value : Bool) :
    (Literal.bool value).global types [] ∈ constants types before literals := by
  induction literals generalizing before with
  | nil => cases some
  | cons literal rest ih =>
      cases literal with
      | bool =>
          refine List.mem_append_left _ ?_
          cases value <;> simp [created, none, global]
      | int | float | string =>
          refine List.mem_append_right _ (ih ?_ some)
          simpa [isNumbered] using none

/-- The constant of a literal is among those of its text. -/
theorem global_mem_constants (before : List Literal) (literal : Literal) (rest : List Literal) :
    literal.global types before ∈ constants types [] (before ++ literal :: rest) := by
  rw [constants_append, List.nil_append, constants]
  cases literal with
  | int | float | string => simp [created]
  | bool value =>
      cases all : before.all isNumbered with
      | false => exact List.mem_append_left _ (bool_mem_constants rfl all value)
      | true => cases value <;> simp [created, all, global]

end Literal

/-! ## Functions -/

namespace Lowering

variable {types : Registry} {signatures : SignatureTable} {before more : List Literal}

theorem recites_build {builder : Builder} {scopes : Scopes Value} {supply : Supply}
    {steps textual : Lowering Unit} {progress : Progress}
    (each : Recites types before more steps textual
      { toProgress := progress, builder, scopes, supply }) :
    Recites types before more (build builder scopes supply steps)
      (build builder scopes supply textual) progress := by
  intro there
  obtain ⟨adds, same⟩ := each there
  have same (other : Pool) : textual { toProgress := withPool other progress, builder, scopes, supply }
      = repool other (steps { toProgress := progress, builder, scopes, supply }) := same other
  unfold build
  cases ran : steps { toProgress := progress, builder, scopes, supply } with
  | ok value later =>
      refine ⟨?_, fun other => ?_⟩
      · rintro _ _ ⟨⟩
        exact adds value later ran
      · simp only [same, ran]
        rfl
  | error error later =>
      refine ⟨nofun, fun other => ?_⟩
      simp only [same, ran]
      rfl

theorem recites_body {slots : List Instr} (env : Surroundings) {state : FunctionState}
    (body : List Stmt) (ready : state.Ready slots) (value : Option TypedOperand) :
    Recites env.types before (ofSuite body) (suite env body >>= fun _ => leaveAtEnd value)
      (Textual.suite env before body >>= fun _ => leaveAtEnd value) state :=
  (recites_suite body ready).last fun _ => plain_leaveAtEnd value

theorem recites_lowerFunction (source : Tree.Function) (progress : Progress) :
    Recites types before (ofSuite source.body) (lowerFunction types signatures source)
      (Textual.lowerFunction types signatures before source) progress := by
  unfold lowerFunction Textual.lowerFunction
  cases resolved : types.resolve source.returns with
  | error error => exact .fails
  | ok returns =>
      cases entered : source.params.foldlM (Opening.addParam types source.name) {} with
      | error error =>
          simp only [Bind.bind, Except.bind]
          exact .fails
      | ok opening =>
          obtain ⟨temp, label⟩ := addParams_supply entered
          obtain ⟨temp', label'⟩ := addResult_supply types opening returns
          have startsAs := startsAs_opened progress source returns (opening.addResult types returns)
            (temp'.trans temp) (label'.trans label)
          have ready := @StartsAs.ready [] _ _ startsAs (by simp [Start.Plain, Start.ofOpening])
          simp only [Bind.bind, Except.bind, pure, Except.pure]
          exact recites_build
            (recites_body ⟨types, signatures, .result returns⟩ source.body ready none)

theorem recites_lowerEntry (source : Tree.Function) (progress : Progress) :
    Recites types before (ofSuite source.body) (lowerEntry types signatures source)
      (Textual.lowerEntry types signatures before source) progress := by
  unfold lowerEntry Textual.lowerEntry
  cases resolved : types.resolve argumentsType.name with
  | error error => exact .fails
  | ok arguments =>
      have ready := @StartsAs.ready [] _ _ (@startsAs_entry types arguments progress)
        (Start.plain_prologue types arguments)
      refine recites_build (.after (plain_openEntry arguments) fun _ later ran => ?_)
      cases ran
      exact recites_body ⟨types, signatures, .status⟩ source.body ready (some success)

end Lowering

/-! ## Modules -/

namespace Codegen

variable {types : Registry} {signatures : SignatureTable} {before : List Literal}

theorem recites_function (entry : String) (source : Tree.Function) (progress : Progress) :
    Recites types before (ofSuite source.body) (function types signatures entry source)
      (Textual.function types signatures entry before source) progress := by
  have noted (lowered : Function) : Plain types (do
      note (.lowered source.name lowered.name lowered.layout.length lowered.instrCount)
      return lowered) :=
    Plain.bind (.modifies fun _ _ => rfl) fun _ => .done
  unfold function Textual.function
  split
  · exact (Lowering.recites_lowerEntry source progress).last noted
  · exact (Lowering.recites_lowerFunction source progress).last noted

/-- Functions are lowered as their texts tell. -/
theorem recites_functions (entry : String) (sources : List Tree.Function) (progress : Progress) :
    Recites types before (ofFunctions sources) (functions types signatures entry sources)
      (Textual.functions types signatures entry before sources) progress := by
  induction sources generalizing before progress with
  | nil => exact .done
  | cons source rest ih =>
      exact (recites_function entry source progress).bind fun lowered later _ =>
        (ih later).last fun _ => .done

theorem recites_ofExcept {α : Type} (check : Except CodegenError α) (progress : Progress) :
    Recites types before [] (ofExcept check) (ofExcept check) progress := by
  cases check with
  | ok value => exact .done
  | error error => exact .fails

theorem recites_generate (source : Tree.Module) (types : Registry) (options : CodegenOptions)
    (progress : Progress) :
    Recites types [] (ofFunctions source.functions) (generate source types options)
      (Textual.generate source types options) progress := by
  have finished (triple : String) (preamble : Preamble) (functions : List Function)
      (progress : Progress) : Recites types (ofFunctions source.functions) []
        (do return { triple, preamble, globals := (← get).pool.globals, functions })
        (do
          let globals := Literal.constants types [] (ofFunctions source.functions)
          return { triple, preamble, globals, functions } : Codegen Module) progress := by
    intro there
    have eq : progress.pool = Literal.pool types (ofFunctions source.functions) := there
    refine ⟨?_, fun other => ?_⟩
    · rintro _ _ ⟨⟩
      rwa [List.append_nil]
    · show _ = EStateM.Result.ok (Ir.Module.mk triple preamble progress.pool.globals functions) _
      rw [eq]
      rfl
  unfold generate Textual.generate
  generalize options.preamble = given
  refine (recites_ofExcept _ progress).silently fun triple before _ => ?_
  refine (recites_ofExcept _ before).silently fun signatures before _ => ?_
  have noted : Plain types (note (.target triple signatures.size)) := .modifies fun _ _ => rfl
  refine .after noted fun _ before _ => ?_
  refine (recites_functions options.entry source.functions before).ends fun lowered after _ => ?_
  cases given with
  | some text => exact finished triple (.verbatim text) lowered after
  | none => exact (recites_ofExcept _ after).silently fun preamble after _ =>
      finished triple preamble lowered after

/-- Code is generated as the text of the module tells. -/
theorem run_generate_eq (source : Tree.Module) (types : Registry) (options : CodegenOptions) :
    run (generate source types options) = run (Textual.generate source types options) := by
  have same : Textual.generate source types options {} =
      repool {} (generate source types options {}) :=
    (recites_generate source types options {} rfl).2 {}
  unfold run
  rw [same]
  cases generate source types options {} <;> rfl

/-- The constants of a module are exactly those of its literals, each of them made from the literals
    that come before it in the text, and their symbols differ. The code is the one in which each
    literal is the address of its constant. -/
theorem generate_constants {source : Tree.Module} {options : CodegenOptions} {generated : Module}
    (accepted : (run (generate source types options)).1 = .ok generated) :
    generated.globals = Literal.constants types [] (ofFunctions source.functions) ∧
      (generated.globals.map (·.symbol)).Nodup ∧
      (∀ before literal rest, ofFunctions source.functions = before ++ literal :: rest →
        literal.global types before ∈ generated.globals) ∧
      (run (Textual.generate source types options)).1 = .ok generated := by
  have textual := run_generate_eq source types options
  obtain ⟨signatures, after, _, _, ran, _, globals⟩ := generate_eq_ok.mp accepted
  have constants : generated.globals = Literal.constants types [] (ofFunctions source.functions) := by
    have recites := @recites_functions types signatures [] options.entry source.functions
      { notes := [.target generated.triple signatures.size] } rfl
    exact globals.trans (congrArg Pool.globals (recites.1 _ after ran))
  refine ⟨constants, ?_, fun before literal rest eq => ?_, textual ▸ accepted⟩
  · rw [globals]
    exact ((functions_later ran).regular (Pool.regular_empty types)).nodup
  · rw [constants, eq]
    exact Literal.global_mem_constants before literal rest

/-- Literals in several functions, some of them behind a return or a last arm. -/
def reciting : Tree.Module where
  functions :=
    [{ name := "line", params := [⟨"loud", "bool"⟩], returns := "str"
       body :=
        [.ifChain
          [.mk (some (.and (.name "loud") (.bool true))) [.ret (some (.string "!")), .effect (.int 1)],
           .mk none [.assign "n" (.int 2)], .mk none [.assign "n" (.int 3)]],
         .ret (some (.string "?")), .effect (.int 4)] },
     { name := "__main__", body := [.effect (.call "print" [.call "line" [.bool false]])] }]

example : (Literal.constants .builtin [] (ofFunctions reciting.functions)).map (·.symbol) =
    ["bool0", "bool1", "str0_data", "str0", "int1", "str2_data", "str2"] := rfl

theorem reciting_constants :
    ∃ generated, (run (generate reciting .builtin {})).1 = .ok generated ∧
      generated.globals = Literal.constants .builtin [] (ofFunctions reciting.functions) ∧
      (generated.globals.map (·.symbol)).Nodup ∧
      (∀ before literal rest, ofFunctions reciting.functions = before ++ literal :: rest →
        literal.global .builtin before ∈ generated.globals) ∧
      (run (Textual.generate reciting .builtin {})).1 = .ok generated := by
  have accepted : (run (generate reciting .builtin {})).1.toBool = true := by decide +kernel
  cases result : (run (generate reciting .builtin {})).1 with
  | error error => simp [result, Except.toBool] at accepted
  | ok generated => exact ⟨generated, rfl, generate_constants result⟩

end Codegen

end LlvmBackend
