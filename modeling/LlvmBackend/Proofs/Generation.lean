import LlvmBackend.Proofs.Lowering.Function

/-! # Generation of code

What a generation of code gives: each function of the module is lowered to the function of
intermediate code at its place.
-/

namespace LlvmBackend

open Ir

namespace SignatureTable

variable (types : Registry)

theorem ofNames_proper (symbol returns : String) (params : List String) (builtin : Bool) :
    FailsProperly (Signature.ofNames types symbol returns params builtin) :=
  (FailsProperly.resolve types returns).bind fun _ =>
    (FailsProperly.mapM params (.resolve types)).bind fun _ => .ok _

theorem enterAll_proper (table : SignatureTable)
    (functions : List (String × Except CodegenError Signature))
    (each : ∀ function ∈ functions, FailsProperly function.2) :
    FailsProperly (enterAll table functions) := by
  induction functions generalizing table with
  | nil => exact .ok _
  | cons function rest ih =>
      exact (each function List.mem_cons_self).bind fun _ =>
        ih _ fun other mem => each other (List.mem_cons_of_mem _ mem)

theorem collect_proper (module : Tree.Module) (entry : String) :
    FailsProperly (collect module types entry) := by
  refine FailsProperly.bind (enterAll_proper _ _ ?_) fun _ => enterAll_proper _ _ ?_
  all_goals
    intro function mem
    obtain ⟨source, _, rfl⟩ := List.mem_map.mp mem
    exact ofNames_proper types _ _ _ _

end SignatureTable

namespace Preamble

theorem derive_proper (types : Registry) (signatures : SignatureTable) (defined : List String) :
    FailsProperly (derive types signatures defined) := by
  refine (FailsProperly.mapM _ fun (id, name, entry) => ?_).bind fun _ => .ok _
  refine (FailsProperly.resolve types entry.returns).bind fun returns => ?_
  have argument : FailsProperly (argumentParam types entry) := by
    unfold argumentParam
    split
    · exact .ok _
    · exact (FailsProperly.resolve types _).bind fun _ => .ok _
  split
  · exact .ok _
  · exact argument.bind fun _ => .ok _

end Preamble

theorem Platform.triple_proper (platform : String) : FailsProperly (Platform.triple platform) := by
  unfold Platform.triple
  split
  · exact .ok _
  · exact .error trivial

namespace Codegen

variable {types : Registry} {signatures : SignatureTable} {progress : Progress}

theorem ofExcept_yields {α : Type} {check : Except CodegenError α} (proper : FailsProperly check) :
    Yields (ofExcept check) progress fun value later => check = .ok value ∧ later = progress := by
  cases check with
  | ok value => exact Yields.done ⟨rfl, rfl⟩
  | error error => exact Yields.fails (proper error rfl)

theorem note_yields (message : Note) (progress : Progress) :
    Yields (note message) progress fun _ _ => True :=
  Yields.modifies trivial

theorem function_yields (entry : String) (source : Tree.Function) :
    Yields (function types signatures entry source) progress fun lowered _ =>
      Renders types signatures entry source lowered := by
  unfold function
  split
  · next named =>
      refine (Lowering.lowerEntry_yields source named progress).bind fun lowered _ renders => ?_
      exact (note_yields _ _).bind fun _ _ _ => Yields.done renders
  · next other =>
      refine (Lowering.lowerFunction_yields source other progress).bind fun lowered _ renders => ?_
      exact (note_yields _ _).bind fun _ _ _ => Yields.done renders

theorem functions_yields (entry : String) (sources : List Tree.Function) :
    Yields (functions types signatures entry sources) progress fun lowered _ =>
      List.Forall₂ (Renders types signatures entry) sources lowered := by
  induction sources generalizing progress with
  | nil => exact Yields.done .nil
  | cons source sources ih =>
      exact (function_yields entry source).bind fun first _ renders =>
        ih.bind fun rest _ others => Yields.done (.cons renders others)

/-- Generation of code gives a module whose functions stand for those of the source, in their
    order. -/
theorem generate_yields (source : Tree.Module) (types : Registry) (options : CodegenOptions) :
    Yields (generate source types options) progress fun generated _ => ∃ signatures,
      SignatureTable.collect source types options.entry = .ok signatures ∧
        List.Forall₂ (Renders types signatures options.entry) source.functions
          generated.functions := by
  refine (ofExcept_yields (Platform.triple_proper _)).bind ?_
  rintro triple progress ⟨_, rfl⟩
  refine (ofExcept_yields (SignatureTable.collect_proper types source options.entry)).bind ?_
  rintro signatures progress ⟨collected, rfl⟩
  refine (note_yields _ _).bind fun _ _ _ => ?_
  refine (functions_yields options.entry source.functions).bind fun lowered _ renders => ?_
  have finish : ∀ (preamble : Preamble) (progress : Progress),
      Yields (get >>= fun last => pure
        { triple, preamble, globals := last.pool.globals, functions := lowered : Ir.Module } :
          Codegen Ir.Module) progress fun generated _ => generated.functions = lowered :=
    fun _ _ => Yields.done rfl
  have done : ∀ generated : Ir.Module, generated.functions = lowered → ∃ signatures,
      SignatureTable.collect source types options.entry = .ok signatures ∧
        List.Forall₂ (Renders types signatures options.entry) source.functions
          generated.functions := by
    rintro generated rfl
    exact ⟨signatures, collected, renders⟩
  split
  · exact (finish _ _).mono fun generated _ => done generated
  · refine (ofExcept_yields (Preamble.derive_proper _ _ _)).bind fun preamble later _ => ?_
    exact (finish _ _).mono fun generated _ => done generated

/-- What is emitted stands for something in the source. -/
theorem exists_renders {entry : String} {sources : List Tree.Function} {lowered : List Function}
    (renders : List.Forall₂ (Renders types signatures entry) sources lowered) :
    ∀ function ∈ lowered, ∃ source ∈ sources, Renders types signatures entry source function := by
  induction renders with
  | nil => simp
  | cons first _ ih =>
      intro function mem
      rcases List.mem_cons.mp mem with rfl | mem
      · exact ⟨_, List.mem_cons_self, first⟩
      · obtain ⟨source, mem, renders⟩ := ih function mem
        exact ⟨source, List.mem_cons_of_mem _ mem, renders⟩

/-- Everything in the source is emitted. -/
theorem exists_rendered {entry : String} {sources : List Tree.Function} {lowered : List Function}
    (renders : List.Forall₂ (Renders types signatures entry) sources lowered) :
    ∀ source ∈ sources, ∃ function ∈ lowered, Renders types signatures entry source function := by
  induction renders with
  | nil => simp
  | cons first _ ih =>
      intro source mem
      rcases List.mem_cons.mp mem with rfl | mem
      · exact ⟨_, List.mem_cons_self, first⟩
      · obtain ⟨function, mem, renders⟩ := ih source mem
        exact ⟨function, List.mem_cons_of_mem _ mem, renders⟩

section Run

variable {α : Type} {steps : Codegen α} {post : α → Progress → Prop}

theorem run_ok (h : Yields steps {} post) {value : α} (result : (run steps).1 = .ok value) :
    ∃ later, post value later := by
  unfold run at result
  split at result
  · next eq =>
      cases result
      exact ⟨_, h.ok eq⟩
  · cases result

theorem run_error (h : Yields steps {} post) {error : CodegenError}
    (result : (run steps).1 = .error error) : error.Proper := by
  unfold run at result
  split at result
  · cases result
  · next eq =>
      cases result
      exact h.error eq

end Run

end Codegen

end LlvmBackend
