import LlvmBackend.Proofs.Acceptance
import LlvmBackend.Proofs.Drafts
import LlvmBackend.Proofs.Lowering.Resolution
import LlvmBackend.Proofs.Registry

/-! # Resolution of types

With a validated registry, generation of code does not fail over the name of a type if the functions
of the module are declared with types that are there. Main statement: `Codegen.validate_resolves`.
-/

namespace LlvmBackend

open Ir Lowering

/-- A function takes and gives back values of types that are there. -/
def Tree.Function.Declared (types : Registry) (function : Tree.Function) : Prop :=
  ∀ name ∈ function.returns :: function.params.map (·.type), (types.lookup name).isSome

namespace Registry

/-- The builtin types are there, in whatever form. -/
def HasBuiltins (types : Registry) : Prop := ∀ name ∈ builtin.names, (types.lookup name).isSome

theorem hasBuiltins_after (changes : List Change) : (after changes).HasBuiltins :=
  fun _ mem => isSome_lookup.mpr ((names_prefix_after [] changes).subset mem)

theorem exists_resolve {types : Registry} {name : String} (known : (types.lookup name).isSome) :
    ∃ type, types.resolve name = .ok type := by
  obtain ⟨type, found⟩ := Option.isSome_iff_exists.mp known
  exact ⟨type, resolve_eq_ok.mpr found⟩

end Registry

/-! ## Signatures -/

namespace SignatureTable

variable {types : Registry}

theorem exists_ofNames {symbol returns : String} {params : List String} {builtin : Bool}
    (all : ∀ name ∈ returns :: params, (types.lookup name).isSome) :
    ∃ signature, Signature.ofNames types symbol returns params builtin = .ok signature := by
  obtain ⟨result, others⟩ := List.forall_mem_cons.mp all
  obtain ⟨type, resolved⟩ := Registry.exists_resolve result
  obtain ⟨types', resolved'⟩ := (exists_mapM_ok params).mpr fun param mem =>
    Registry.exists_resolve (others param mem)
  refine ⟨⟨symbol, type, types', builtin⟩, ?_⟩
  simp only [Signature.ofNames, resolved, resolved']
  rfl

theorem exists_enterAll {functions : List (String × Except CodegenError Signature)}
    (each : ∀ function ∈ functions, ∃ signature, function.2 = .ok signature)
    (table : SignatureTable) : ∃ whole, enterAll table functions = .ok whole := by
  induction functions generalizing table with
  | nil => exact ⟨table, rfl⟩
  | cons function rest ih =>
      obtain ⟨signature, first⟩ := each function List.mem_cons_self
      obtain ⟨whole, others⟩ := ih (fun other mem => each other (List.mem_cons_of_mem _ mem))
        (table.insert function.1 signature)
      refine ⟨whole, ?_⟩
      simp only [enterAll, first]
      exact others

/-- The functions that can be called have signatures. -/
theorem exists_collect (builtins : types.HasBuiltins) {source : Tree.Module}
    (declared : ∀ function ∈ source.functions, function.Declared types) (entry : String) :
    ∃ signatures, collect source types entry = .ok signatures := by
  have library : ∀ function ∈ Signature.library, ∀ name ∈ function.2.1 :: function.2.2,
      name ∈ Registry.builtin.names := by decide
  obtain ⟨table, entered⟩ : ∃ table, SignatureTable.builtins types = .ok table := by
    refine exists_enterAll (List.forall_mem_map.mpr fun function mem => exists_ofNames ?_) .empty
    exact fun name named => builtins name (library function mem name named)
  obtain ⟨whole, collected⟩ : ∃ whole, enterAll table
      ((source.functions.filter (·.name ≠ entry)).map fun function =>
        (function.name, Signature.ofNames types function.name function.returns
          (function.params.map (·.type)) false)) = .ok whole :=
    exists_enterAll (List.forall_mem_map.mpr fun function mem =>
      exists_ofNames (declared function (List.mem_filter.mp mem).1)) table
  refine ⟨whole, ?_⟩
  simp only [collect, entered]
  exact collected

end SignatureTable

/-! ## Functions -/

namespace Lowering

variable {types : Registry} {signatures : SignatureTable}

theorem resolves_build {builder : Builder} {scopes : Scopes Value} {supply : Supply}
    {steps : Lowering Unit} (each : Resolves steps) :
    Resolves (build builder scopes supply steps) := by
  intro progress name after failed
  unfold build at failed
  split at failed
  · cases failed
  · next error later ran =>
    cases failed
    exact each _ name later ran

theorem resolves_body {outcome : Outcome} (closed : types.Closed) (body : List Stmt)
    (value : Option TypedOperand) :
    Resolves (suite ⟨types, signatures, outcome⟩ body >>= fun _ => leaveAtEnd value) := by
  have suite : Resolves (suite ⟨types, signatures, outcome⟩ body) := resolves_suite closed body
  exact suite.bind fun _ => (plain_leaveAtEnd value).resolves closed

/-- Parameters of known types are refused for other reasons than the names of their types. -/
theorem addParams_ne_unknown {function : String} {params : List Tree.Param}
    (known : ∀ param ∈ params, (types.lookup param.type).isSome) (opening : Opening)
    (name : String) :
    params.foldlM (Opening.addParam types function) opening ≠ .error (.unknownType name) := by
  induction params generalizing opening with
  | nil => nofun
  | cons param rest ih =>
      obtain ⟨first, others⟩ := List.forall_mem_cons.mp known
      obtain ⟨type, resolved⟩ := Registry.exists_resolve first
      rw [List.foldlM_cons, addParam_eq, resolved]
      by_cases void : type = Registry.void
      · simp only [if_pos void]
        nofun
      · simp only [if_neg void]
        exact ih others _

theorem resolves_lowerFunction (closed : types.Closed) {source : Tree.Function}
    (declared : source.Declared types) : Resolves (lowerFunction types signatures source) := by
  obtain ⟨result, params⟩ := List.forall_mem_cons.mp declared
  obtain ⟨returns, resolved⟩ := Registry.exists_resolve result
  have others := @addParams_ne_unknown types source.name _ (List.forall_mem_map.mp params) {}
  unfold lowerFunction
  cases entered : source.params.foldlM (Opening.addParam types source.name) {} with
  | error error =>
      simp only [resolved, Bind.bind, Except.bind]
      rintro progress name after failed
      cases failed
      exact others name entered
  | ok opening =>
      simp only [resolved, Bind.bind, Except.bind, pure, Except.pure]
      exact resolves_build (resolves_body closed source.body none)

theorem resolves_lowerEntry (closed : types.Closed) (builtins : types.HasBuiltins)
    (source : Tree.Function) : Resolves (lowerEntry types signatures source) := by
  obtain ⟨arguments, resolved⟩ := Registry.exists_resolve (builtins argumentsType.name (by decide))
  unfold lowerEntry
  simp only [resolved]
  exact resolves_build (((plain_openEntry arguments).resolves closed).bind fun _ =>
    resolves_body closed source.body (some success))

end Lowering

/-! ## Modules -/

namespace Codegen

variable {types : Registry} {signatures : SignatureTable}

theorem resolves_ofExcept {α : Type} {check : Except CodegenError α}
    (known : ∀ name, check ≠ .error (.unknownType name)) : Resolves (ofExcept check) := by
  cases check with
  | ok value => exact .done
  | error error =>
      rintro _ name _ failed
      cases failed
      exact known name rfl

theorem resolves_note (message : Note) : Resolves (note message) := by
  rintro _ _ _ ⟨⟩

theorem resolves_function (closed : types.Closed) (builtins : types.HasBuiltins) (entry : String)
    {source : Tree.Function} (declared : source.Declared types) :
    Resolves (function types signatures entry source) := by
  have noted {step : Codegen Function} (each : Resolves step) : Resolves (step >>= fun lowered =>
      note (.lowered source.name lowered.name lowered.layout.length lowered.instrCount) >>=
        fun _ => pure lowered) :=
    each.bind fun _ => (resolves_note _).bind fun _ => .done
  unfold function
  split
  · exact noted (resolves_lowerEntry closed builtins source)
  · exact noted (resolves_lowerFunction closed declared)

theorem resolves_functions (closed : types.Closed) (builtins : types.HasBuiltins) (entry : String)
    {sources : List Tree.Function} (declared : ∀ source ∈ sources, source.Declared types) :
    Resolves (functions types signatures entry sources) := by
  induction sources with
  | nil => exact .done
  | cons source rest ih =>
      obtain ⟨first, others⟩ := List.forall_mem_cons.mp declared
      exact (resolves_function closed builtins entry first).bind fun _ => (ih others).bind fun _ =>
        .done

/-- What methods name can be declared. -/
theorem declarable_of_closed (closed : types.Closed) : Checker.Declarable types := by
  intro descriptor there method mem
  have entry : method.2 ∈ descriptor.methods.values := List.mem_map_of_mem mem
  have known (name : String) (named : method.2.returns = name ∨ method.2.argument = some name) :
      (types.lookup name).isSome :=
    closed descriptor there name (Registry.mem_references.mpr (.inr ⟨_, entry, named⟩))
  exact ⟨known _ (.inl rfl), fun _ argument named => known argument (.inr named)⟩

theorem resolves_generate (closed : types.Closed) (builtins : types.HasBuiltins)
    {source : Tree.Module} (declared : ∀ function ∈ source.functions, function.Declared types)
    (options : CodegenOptions) : Resolves (generate source types options) := by
  obtain ⟨signatures, collected⟩ := SignatureTable.exists_collect builtins declared options.entry
  have platform (name : String) : Platform.triple options.platform ≠ .error (.unknownType name) := by
    unfold Platform.triple
    split <;> simp
  have derived (signatures : SignatureTable) (defined : List String) (name : String) :
      preamble types signatures options defined ≠ .error (.unknownType name) := by
    obtain ⟨found, derived⟩ :=
      (Preamble.derive_accepts types signatures defined).mpr (declarable_of_closed closed)
    unfold preamble
    split <;> simp [derived]
  rw [generate_eq]
  refine (resolves_ofExcept platform).bind fun triple => ?_
  refine (resolves_ofExcept (by simp [collected])).bind fun signatures => ?_
  refine (resolves_note _).bind fun _ => ?_
  refine (resolves_functions closed builtins options.entry declared).bind fun lowered => ?_
  refine (resolves_ofExcept (derived _ _)).bind fun preamble => ?_
  rintro _ _ _ ⟨⟩

/-- The check of a registry fails if and only if some type refers to one that is not there. After any
    changes to the builtin types that leave a registry that passes, only types that declare no
    elements have none, and no generation of code for declared functions fails over the name of a
    type. -/
theorem validate_resolves (changes : List Registry.Change) :
    ((∃ error, (Registry.after changes).validate = .error error) ↔
        (Registry.after changes).Dangling) ∧
      ((Registry.after changes).validate = .ok () →
        (∀ id, (Registry.after changes).element id = none →
          ((Registry.after changes).describe id).element = none) ∧
        ∀ source : Tree.Module,
          (∀ function ∈ source.functions, function.Declared (Registry.after changes)) →
          ∀ options name, (run (generate source (Registry.after changes) options)).1 ≠
            .error (.unknownType name)) := by
  refine ⟨Registry.exists_validate_error, fun validated => ?_⟩
  have closed := Registry.validate_eq_ok.mp validated
  refine ⟨fun id => closed.element, fun source declared options name failed => ?_⟩
  have resolves := resolves_generate closed (Registry.hasBuiltins_after changes) declared options
  unfold run at failed
  split at failed
  · cases failed
  · next error progress ran =>
    cases failed
    exact resolves {} name progress ran

/-- A type with an element and a method, over a module that takes a value of it. -/
theorem track_resolves :
    let track : TypeDescriptor :=
      { name := "track", ir := "%point*" : TypeDescriptor }
        |>.withElement "point"
        |>.withMethod "__add__" "track" (some "point")
    let types := Registry.after [.define track, .define { name := "point", ir := "%point" }]
    let source : Tree.Module :=
      ⟨[{ name := "first", params := [⟨"t", "track"⟩], returns := "point"
          body := [.ret (some (.index (.name "t") (.int 0)))] }]⟩
    types.validate = .ok () ∧ (∀ function ∈ source.functions, function.Declared types) ∧
      ∀ options name, (run (generate source types options)).1 ≠ .error (.unknownType name) := by
  intro track types source
  have validated : types.validate = .ok () := rfl
  have declared : ∀ function ∈ source.functions, function.Declared types := by
    intro function mem
    rw [List.mem_singleton.mp mem]
    unfold Tree.Function.Declared
    decide +kernel
  exact ⟨validated, declared, ((validate_resolves _).2 validated).2 source declared⟩

end Codegen

end LlvmBackend
