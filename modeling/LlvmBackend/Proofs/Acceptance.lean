import LlvmBackend.Proofs.Checker.Stmt
import LlvmBackend.Proofs.Typing

/-! # Accepted modules

Code is generated for exactly the modules that the checker accepts. Main statement:
`Codegen.generate_accepts`.
-/

namespace LlvmBackend

open Ir Checker Lowering FunctionState

/-! ## Names at the start of functions -/

theorem Scopes.types_push (scopes : Scopes Value) : scopes.push.types = scopes.types := by
  funext name
  rw [types, lookup_push, types]

theorem Scopes.types_empty : (empty : Scopes Value).types = fun _ => none := by
  funext name
  rw [types, lookup_empty, Option.map_none]

/-- Only the name `void` stands for the type without values. -/
theorem Registry.lookup_ne_void {types : Registry} {name : String} {type : TypeId}
    (found : types.lookup name = some type) (other : name ≠ "void") : type ≠ Registry.void := by
  rintro rfl
  obtain ⟨rest, eq⟩ := types.core
  match h : types.descriptors with
  | [] => simp [coreNames, h] at eq
  | first :: others =>
      obtain ⟨named, _⟩ : "void" = first.name ∧ _ := by simpa [coreNames, h] using eq
      have there : types.descriptors.findIdx? (·.name = name) = some 0 := by
        simpa [lookup, Registry.void] using found
      have here : first.name = name := by
        by_contra differ
        simp [h, List.findIdx?_cons, differ] at there
      exact other (here.symm.trans named.symm)

namespace Lowering

variable {types : Registry} {signatures : SignatureTable}

/-- The parameters can be added if and only if the checker can bind them, and then names have the
    types that the checker knows. -/
theorem bindParams_eq_some (function : String) (params : List Tree.Param) (opening : Opening)
    (bound : Env) : bindParams types opening.scopes.types params = some bound ↔
      ∃ later, params.foldlM (Opening.addParam types function) opening = .ok later ∧
        later.scopes.types = bound := by
  induction params generalizing opening with
  | nil =>
      rw [bindParams, List.foldlM_nil]
      constructor
      · rintro ⟨⟩
        exact ⟨opening, rfl, rfl⟩
      · rintro ⟨_, ⟨⟩, rfl⟩
        rfl
  | cons param params ih =>
      rw [bindParams, List.foldlM_cons, addParam_eq, Registry.resolve]
      cases found : types.lookup param.type with
      | none => exact iff_of_false (by simp) (by rintro ⟨_, ⟨⟩, _⟩)
      | some type =>
          by_cases void : type = Registry.void
          · simp only [if_pos void]
            exact iff_of_false (by simp [valued, void]) (by rintro ⟨_, ⟨⟩, _⟩)
          · simp only [if_neg void]
            have rest := ih (withParam types opening param.name type)
            rw [withParam, Scopes.types_define] at rest
            have typed : (some type >>= valued) = some type := valued_eq_some.mpr ⟨void, rfl⟩
            rw [typed]
            exact rest

/-- No parameter has type `void`. -/
theorem valued_addParams {function : String} {params : List Tree.Param} {opening : Opening}
    (entered : params.foldlM (Opening.addParam types function) {} = .ok opening) :
    ∀ name value, opening.scopes.lookup name = some value → value.type ≠ Registry.void := by
  refine addParams_induct (motive := fun _ (middle : Opening) =>
    ∀ name value, middle.scopes.lookup name = some value → value.type ≠ Registry.void) entered ?_ ?_
  · intro name value found
    cases Scopes.lookup_empty name ▸ found
  · intro opening param rest type _ valued before name value found
    simp only [withParam, Scopes.lookup_define] at found
    split at found
    · cases found
      exact valued
    · exact before name value found

/-! ## Bodies -/

theorem passes_leaveAtEnd {known : Scopes Value} (value : Option TypedOperand) :
    Passes known (leaveAtEnd value) fun _ => True := by
  refine passes_isTerminated.andThen fun ended => ?_
  cases ended with
  | true => exact .done trivial
  | false => exact passes_terminate _

variable {start : Start} {state : FunctionState}

/-- A body can be lowered if and only if the checker accepts it. -/
theorem body_accepts (startsAs : StartsAs start state) (plain : Start.Plain start.before)
    (known : start.names.Valued) (body : List Stmt) :
    (∃ later, (suite ⟨types, signatures, start.outcome⟩ body >>= fun _ =>
        leaveAtEnd start.atEnd) state = .ok () later) ↔
      (checkSuite types signatures start.outcome start.names.types body).isSome := by
  have emitted := @body_emitted state types signatures start startsAs plain body
  constructor
  · rintro ⟨later, result⟩
    cases emitted.ok result with
    | intro slots site lowers =>
        exact Option.isSome_iff_exists.mpr ⟨_, (lowers.checks known).1⟩
  · intro checked
    obtain ⟨bound, checked⟩ := Option.isSome_iff_exists.mp checked
    have ready : state.Ready [] := startsAs.ready plain
    have names := startsAs.names
    have eq : state.scopes.types = start.names.types := congrArg Names.types names
    rw [← eq] at checked
    have accepts := @accepts_suite [] ⟨types, signatures, start.outcome⟩ state body ready
      (names ▸ known) bound checked
    have whole := accepts.bind (suite_runs _ body ready) fun _ later _ =>
      (passes_leaveAtEnd start.atEnd).accepts
    obtain ⟨_, later, result⟩ := whole.ok emitted
    exact ⟨later, result⟩

/-! ## Functions -/

theorem build_accepts {builder : Builder} {scopes : Scopes Value} {supply : Supply}
    {steps : Lowering Unit} {progress : Progress} :
    (∃ lowered after, build builder scopes supply steps progress = .ok lowered after) ↔
      ∃ later, steps { toProgress := progress, builder, scopes, supply } = .ok () later := by
  unfold build
  cases steps { toProgress := progress, builder, scopes, supply } with
  | ok _ later => exact iff_of_true ⟨_, _, rfl⟩ ⟨later, rfl⟩
  | error error later => exact iff_of_false (by simp) (by simp)

theorem resolve_eq_error {name : String} {error : CodegenError}
    (resolved : types.resolve name = .error error) : types.lookup name = none := by
  unfold Registry.resolve at resolved
  split at resolved
  · cases resolved
  · assumption

theorem lowerFunction_accepts {entry : String} {source : Tree.Function}
    (other : source.name ≠ entry) (progress : Progress) :
    (∃ lowered after, lowerFunction types signatures source progress = .ok lowered after) ↔
      (checkFunction types signatures entry source).isSome := by
  rw [checkFunction, if_neg other]
  cases resolved : types.resolve source.returns with
  | error error =>
      have failed : lowerFunction types signatures source progress = .error error progress := by
        simp only [lowerFunction, resolved, Bind.bind, Except.bind]
      rw [failed, resolve_eq_error resolved]
      exact iff_of_false (by simp) (by simp)
  | ok returns =>
      have params := @bindParams_eq_some types source.name source.params {}
      rw [Scopes.types_empty] at params
      rw [Registry.resolve_eq_ok.mp resolved]
      cases entered : source.params.foldlM (Opening.addParam types source.name) {} with
      | error error =>
          have failed : lowerFunction types signatures source progress = .error error progress := by
            simp only [lowerFunction, resolved, entered, Bind.bind, Except.bind]
          have unbound : bindParams types (fun _ => none) source.params = none := by
            by_contra bound
            obtain ⟨env, bound⟩ := Option.ne_none_iff_exists'.mp bound
            obtain ⟨_, entered', _⟩ := (params env).mp bound
            cases entered.symm.trans entered'
          rw [failed, unbound]
          exact iff_of_false (by simp) (by simp)
      | ok opening =>
          have bound : bindParams types (fun _ => none) source.params = some opening.scopes.types :=
            (params _).mpr ⟨opening, entered, rfl⟩
          have ran : lowerFunction types signatures source progress = build
              { name := source.name, returns := .void
                params := (opening.addResult types returns).params }
              (opening.addResult types returns).scopes.push (opening.addResult types returns).supply
              (suite ⟨types, signatures, .result returns⟩ source.body >>= fun _ => leaveAtEnd none)
              progress := by
            simp only [lowerFunction, resolved, entered, Bind.bind, Except.bind, pure, Except.pure]
          rw [ran, build_accepts, bound]
          obtain ⟨temp, label⟩ := addParams_supply entered
          obtain ⟨temp', label'⟩ := addResult_supply types opening returns
          have startsAs := startsAs_opened progress source returns (opening.addResult types returns)
            (temp'.trans temp) (label'.trans label)
          have known : (Start.ofOpening source returns
              (opening.addResult types returns)).names.Valued := by
            intro name value found
            simp only [Start.ofOpening, Scopes.lookup_push, scopes_addResult] at found
            exact valued_addParams entered name value found
          have body := @body_accepts types signatures _ _ startsAs
            (by simp [Start.Plain, Start.ofOpening]) known source.body
          have names : (Start.ofOpening source returns (opening.addResult types returns)).names.types
              = opening.scopes.types := by
            rw [Names.types, Start.ofOpening, Scopes.types_push, scopes_addResult]
          rw [names] at body
          refine body.trans ?_
          simp only [Start.ofOpening, Option.bind_eq_bind, Option.bind_some]
          cases checkSuite types signatures (.result returns) opening.scopes.types source.body <;> rfl

theorem lowerEntry_accepts {entry : String} {source : Tree.Function}
    (named : source.name = entry) (progress : Progress) :
    (∃ lowered after, lowerEntry types signatures source progress = .ok lowered after) ↔
      (checkFunction types signatures entry source).isSome := by
  rw [checkFunction, if_pos named]
  cases resolved : types.resolve argumentsType.name with
  | error error =>
      have failed : lowerEntry types signatures source progress = .error error progress := by
        simp only [lowerEntry, resolved]
      rw [failed, resolve_eq_error resolved]
      exact iff_of_false (by simp) (by simp)
  | ok arguments =>
      have found := Registry.resolve_eq_ok.mp resolved
      have valued : arguments ≠ Registry.void := Registry.lookup_ne_void found (by decide)
      have ran : lowerEntry types signatures source progress = build
          { name := entrySymbol, returns := .i32, params := [⟨.i32, "argc"⟩, ⟨argvType, "argv"⟩]
            attributes := ["nounwind", "ssp"] }
          .empty (entryNames.foldl Supply.reserve {}) (openEntry types arguments >>= fun _ =>
            suite ⟨types, signatures, .status⟩ source.body >>= fun _ =>
              leaveAtEnd (some success)) progress := by
        simp only [lowerEntry, resolved]
      rw [ran, build_accepts, found]
      have names : (Start.ofEntry types arguments).names.types = entryEnv arguments := by
        rw [Names.types, Start.ofEntry, Scopes.types_push, Scopes.types_define,
          Scopes.types_define, Scopes.types_empty]
        rfl
      have known : (Start.ofEntry types arguments).names.Valued := by
        intro name value found
        simp only [Start.ofEntry, Scopes.lookup_push, Scopes.lookup_define, Scopes.lookup_empty]
          at found
        split at found
        · cases found
          exact valued
        · split at found
          · cases found
            simp [Value.stable, Registry.string, Registry.void]
          · cases found
      have body := @body_accepts types signatures _ _ (startsAs_entry arguments progress)
        (Start.plain_prologue types arguments) known source.body
      rw [names] at body
      refine Iff.trans body ?_
      simp only [Start.ofEntry, Option.bind_eq_bind, Option.bind_some]
      cases checkSuite types signatures .status (entryEnv arguments) source.body <;> rfl

end Lowering

/-! ## Modules -/

/-- All checks succeed if and only if each does. -/
theorem exists_mapM_ok {α β : Type} {check : α → Except CodegenError β} (values : List α) :
    (∃ found, values.mapM check = .ok found) ↔ ∀ value ∈ values, ∃ found, check value = .ok found := by
  induction values with
  | nil => exact iff_of_true ⟨[], rfl⟩ (by simp)
  | cons value values ih =>
      rw [List.mapM_cons, List.forall_mem_cons, ← ih]
      cases check value with
      | error error => exact iff_of_false (by rintro ⟨_, ⟨⟩⟩) (by simp)
      | ok first =>
          cases values.mapM check with
          | error error => exact iff_of_false (by rintro ⟨_, ⟨⟩⟩) (by simp)
          | ok rest => exact iff_of_true ⟨_, rfl⟩ ⟨⟨first, rfl⟩, rest, rfl⟩

theorem Registry.forall_describe {types : Registry} {p : TypeDescriptor → Prop} :
    (∀ id ∈ types.ids, p (types.describe id)) ↔ ∀ descriptor ∈ types.descriptors, p descriptor := by
  constructor
  · intro all descriptor mem
    obtain ⟨index, lt, rfl⟩ := List.mem_iff_getElem.mp mem
    have there := all ⟨index⟩ (List.mem_map.mpr ⟨index, List.mem_range.mpr lt, rfl⟩)
    rwa [describe, List.getElem?_eq_getElem lt, Option.getD_some] at there
  · intro all id mem
    obtain ⟨index, there, rfl⟩ := List.mem_map.mp mem
    have lt : index < types.descriptors.length := List.mem_range.mp there
    rw [describe, List.getElem?_eq_getElem lt, Option.getD_some]
    exact all _ (List.getElem_mem lt)

namespace Preamble

theorem methodDeclaration_accepts (types : Registry) (receiver : TypeId) (name : String)
    (entry : MethodEntry) :
    (∃ declaration, methodDeclaration types receiver name entry = .ok declaration) ↔
      (types.lookup entry.returns).isSome ∧
        (name ≠ "__next__" → ∀ argument ∈ entry.argument, (types.lookup argument).isSome) := by
  unfold methodDeclaration Registry.resolve
  cases types.lookup entry.returns with
  | none => exact iff_of_false (by rintro ⟨_, ⟨⟩⟩) (by simp)
  | some returns =>
      by_cases isNext : name = next
      · simp only [if_pos isNext]
        exact iff_of_true ⟨_, rfl⟩ ⟨rfl, fun other => absurd isNext other⟩
      · simp only [if_neg isNext, argumentParam, Registry.resolve]
        have other : name ≠ "__next__" := isNext
        cases entry.argument with
        | none => exact iff_of_true ⟨_, rfl⟩ (by simp)
        | some argument =>
            dsimp only
            cases known : types.lookup argument with
            | none => exact iff_of_false (by rintro ⟨_, ⟨⟩⟩) (by simp [other, known])
            | some type => exact iff_of_true ⟨_, rfl⟩ (by simp [known])

/-- The types that methods name are there if and only if the methods can be declared. -/
theorem derive_accepts (types : Registry) (signatures : SignatureTable) (defined : List String) :
    (∃ preamble, derive types signatures defined = .ok preamble) ↔ Declarable types := by
  have methods : (∃ preamble, derive types signatures defined = .ok preamble) ↔
      ∃ found, methodDeclarations types = .ok found := by
    unfold derive
    cases methodDeclarations types with
    | error error => exact iff_of_false (by rintro ⟨_, ⟨⟩⟩) (by simp)
    | ok found => exact iff_of_true ⟨_, rfl⟩ ⟨found, rfl⟩
  rw [methods, methodDeclarations, exists_mapM_ok, Declarable, ← Registry.forall_describe]
  simp only [List.forall_mem_flatMap, List.forall_mem_map]
  exact forall₂_congr fun id _ => forall₂_congr fun method _ =>
    methodDeclaration_accepts types id method.1 method.2

end Preamble

namespace Codegen

variable {types : Registry} {signatures : SignatureTable} {entry : String}

theorem accepts_bind {α β : Type} {step : Codegen α} {next : α → Codegen β} {before : Progress} :
    (∃ value after, (step >>= next) before = .ok value after) ↔
      ∃ found between, step before = .ok found between ∧
        ∃ value after, next found between = .ok value after := by
  constructor
  · rintro ⟨value, after, result⟩
    obtain ⟨found, between, ran, rest⟩ := exists_of_bind result
    exact ⟨found, between, ran, value, after, rest⟩
  · rintro ⟨found, between, ran, value, after, rest⟩
    exact ⟨value, after, (bind_of_ok ran).trans rest⟩

/-- A check changes nothing. -/
theorem accepts_ofExcept {α β : Type} {check : Except CodegenError α} {next : α → Codegen β}
    {before : Progress} :
    (∃ value after, (ofExcept check >>= next) before = .ok value after) ↔
      ∃ found, check = .ok found ∧ ∃ value after, next found before = .ok value after := by
  rw [accepts_bind]
  constructor
  · rintro ⟨found, _, ran, rest⟩
    obtain ⟨eq, rfl⟩ := ofExcept_ok ran
    exact ⟨found, eq, rest⟩
  · rintro ⟨found, rfl, rest⟩
    exact ⟨found, before, rfl, rest⟩

/-- A note is always taken. -/
theorem accepts_note {β : Type} {message : Note} {next : Unit → Codegen β} {before : Progress} :
    (∃ value after, (note message >>= next) before = .ok value after) ↔
      ∃ value after, next () { before with notes := before.notes ++ [message] } =
        .ok value after := Iff.rfl

theorem function_accepts (source : Tree.Function) (progress : Progress) :
    (∃ lowered after, function types signatures entry source progress = .ok lowered after) ↔
      (checkFunction types signatures entry source).isSome := by
  have noted (lowered : Function) (between : Progress) : ∃ value after,
      (note (.lowered source.name lowered.name lowered.layout.length lowered.instrCount) >>= fun _ =>
        (pure lowered : Codegen Function)) between = .ok value after := ⟨_, _, rfl⟩
  unfold function
  split
  · next named =>
      rw [← lowerEntry_accepts named progress, accepts_bind]
      simp only [noted, and_true]
  · next other =>
      rw [← lowerFunction_accepts other progress, accepts_bind]
      simp only [noted, and_true]

theorem functions_accept (sources : List Tree.Function) (progress : Progress) :
    (∃ lowered after, functions types signatures entry sources progress = .ok lowered after) ↔
      ∀ source ∈ sources, (checkFunction types signatures entry source).isSome := by
  induction sources generalizing progress with
  | nil => exact iff_of_true ⟨_, _, rfl⟩ (by simp)
  | cons first rest ih =>
      have others (between : Progress) (lowered : Function) : (∃ value after,
          (functions types signatures entry rest >>= fun others =>
            (pure (lowered :: others) : Codegen (List Function))) between = .ok value after) ↔
          ∀ source ∈ rest, (checkFunction types signatures entry source).isSome := by
        rw [accepts_bind, ← ih between]
        exact exists₂_congr fun _ _ => and_iff_left ⟨_, _, rfl⟩
      rw [functions, accepts_bind, List.forall_mem_cons, ← function_accepts first progress]
      simp only [others, exists_and_right]

theorem run_accepts {α : Type} {steps : Codegen α} :
    (∃ value, (run steps).1 = .ok value) ↔ ∃ value after, steps {} = .ok value after := by
  unfold run
  cases steps {} with
  | ok value after => exact iff_of_true ⟨value, rfl⟩ ⟨value, after, rfl⟩
  | error error after => exact iff_of_false (by simp) (by simp)

/-- The preamble can be made if and only if it is given or methods can be declared. -/
theorem preamble_accepts {preamble : Option String} {defined : List String}
    {next : Preamble → Codegen Module} {before : Progress}
    (goesOn : ∀ preamble, ∃ generated after, next preamble before = .ok generated after) :
    (∃ generated after, (match preamble with
      | some text => pure (Preamble.verbatim text) >>= next
      | none => ofExcept (Preamble.derive types signatures defined) >>= next : Codegen Module)
        before = .ok generated after) ↔ (preamble = none → Declarable types) := by
  cases preamble with
  | some text => exact iff_of_true (goesOn (.verbatim text)) (by simp)
  | none =>
      simp only [forall_const]
      rw [accepts_ofExcept, ← Preamble.derive_accepts types signatures defined]
      exact exists_congr fun found => and_iff_left (goesOn found)

/-- Code is generated for exactly the modules that are well typed, on a platform that is known. -/
theorem generate_accepts (source : Tree.Module) (types : Registry) (options : CodegenOptions) :
    (∃ generated, (run (generate source types options)).1 = .ok generated) ↔
      (∃ triple, Platform.triple options.platform = .ok triple) ∧
        WellTyped source types options := by
  rw [run_accepts, generate, accepts_ofExcept, ← exists_and_right]
  refine exists_congr fun triple => and_congr_right fun _ => ?_
  rw [accepts_ofExcept]
  constructor
  · rintro ⟨signatures, collected, accepted⟩
    rw [accepts_note, accepts_bind] at accepted
    obtain ⟨lowered, between, ran, accepted⟩ := accepted
    refine ⟨⟨signatures, collected, (functions_accept _ _).mp ⟨lowered, between, ran⟩⟩, ?_⟩
    refine (preamble_accepts ?_).mp accepted
    exact fun _ => ⟨_, _, rfl⟩
  · rintro ⟨⟨signatures, collected, checked⟩, declarable⟩
    obtain ⟨lowered, between, ran⟩ := (functions_accept source.functions _).mpr checked
    refine ⟨signatures, collected, ?_⟩
    rw [accepts_note, accepts_bind]
    refine ⟨lowered, between, ran, (preamble_accepts ?_).mpr declarable⟩
    exact fun _ => ⟨_, _, rfl⟩

end Codegen

end LlvmBackend
