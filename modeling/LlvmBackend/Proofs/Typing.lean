import LlvmBackend.Proofs.Structure
import LlvmBackend.Proofs.Typing.Stmt

/-! # Consistent types

In emitted functions every operand is used at the type that its definition states, if the types of a
registry fit together.
-/

namespace LlvmBackend

open Ir FunctionState

/-- The parameters of a function have different names, and none has the name of its result. -/
structure Tree.Function.Distinct (function : Tree.Function) : Prop where
  nodup : (function.params.map Tree.Param.name).Nodup
  result : Lowering.resultName ∉ function.params.map Tree.Param.name

namespace Lowering

/-! ## Bodies -/

theorem typed_leaveAtEnd {env : Surroundings} {has : Operand → IrType → Prop} {given : Prop}
    {state : FunctionState} {value : Option TypedOperand}
    (fits : (Terminator.ret value).Fits has env.outcome.returned) :
    Typed env has given (leaveAtEnd value) state fun _ _ => True := by
  refine typed_isTerminated.andThen fun ended _ _ => ?_
  cases ended with
  | true => exact .done fun _ => trivial
  | false => exact typed_terminate _ fun _ => fits

/-- The instructions of a state are those of the function that it is finished to. -/
theorem mem_instrs_finish {state : FunctionState} (pos : 0 < state.builder.blocks.length)
    (placed : ∀ id < state.builder.finish.blocks.length, id ∈ state.builder.finish.layout) {i : Instr}
    (mem : i ∈ state.builder.blocks.flatMap Block.instrs ++ state.builder.slots) :
    i ∈ state.builder.finish.instrs := by
  have size : state.builder.finish.blocks.length = state.builder.blocks.length := by
    simp [Builder.finish]
  rw [size] at placed
  refine Function.mem_instrs.mpr ?_
  rw [finish_block pos]
  rcases List.mem_append.mp mem with inside | slot
  · obtain ⟨block, there, mem⟩ := List.mem_flatMap.mp inside
    obtain ⟨id, lt, rfl⟩ := List.mem_iff_getElem.mp there
    refine ⟨id, placed id lt, ?_⟩
    simp only [site, List.getElem?_eq_getElem lt, Option.getD_some]
    split
    · exact List.mem_append_right _ mem
    · exact mem
  · exact ⟨0, placed 0 pos, List.mem_append_left _ slot⟩

variable {env : Surroundings} {start later : FunctionState}

/-- What stands in a block of a finished function stands in a block of its state or before all. -/
theorem mem_block_finish (pos : 0 < later.builder.blocks.length) {id : BlockId} {i : Instr}
    (mem : i ∈ (later.builder.finish.block id).instrs) :
    i ∈ later.builder.slots ∨ ∃ block ∈ later.builder.blocks, i ∈ block.instrs := by
  have inside : i ∈ (later.builder.blocks[id]?.getD {}).instrs →
      ∃ block ∈ later.builder.blocks, i ∈ block.instrs := by
    intro mem
    cases there : later.builder.blocks[id]? with
    | none => simp [there] at mem
    | some block =>
        rw [there] at mem
        exact ⟨block, List.mem_of_getElem? there, mem⟩
  simp only [finish_block pos, site] at mem
  split at mem
  · exact (List.mem_append.mp mem).imp_right inside
  · exact .inr (inside mem)

theorem ends_finish (pos : 0 < later.builder.blocks.length) {id : BlockId}
    {terminator : Terminator}
    (ends : terminator ∈ (later.builder.finish.block id).terminator) :
    ∃ block ∈ later.builder.blocks, terminator ∈ block.terminator := by
  have same : (later.builder.finish.block id).terminator =
      (later.builder.blocks[id]?.getD {}).terminator := by
    simp only [finish_block pos, site]
    split <;> rfl
  rw [same] at ends
  cases there : later.builder.blocks[id]? with
  | none => simp [there] at ends
  | some block =>
      rw [there] at ends
      exact ⟨block, List.mem_of_getElem? there, ends⟩

/-- What fits in a state is consistently typed in the function that it is finished to. -/
theorem typed_finish {globals : List Global} (pos : 0 < later.builder.blocks.length)
    (wellFormed : later.builder.finish.WellFormed)
    (params : (later.builder.params.map Param.name).Nodup)
    (distinct : (globals.map Global.symbol).Nodup)
    (fits : later.Fits env (later.builder.finish.Defines globals)) :
    later.builder.finish.Typed globals env.outcome.returned := by
  have instrs : ∀ id, ∀ i ∈ (later.builder.finish.block id).instrs,
      i.Fits (later.builder.finish.Defines globals) := by
    intro id i mem
    rcases mem_block_finish pos mem with slot | ⟨block, there, mem⟩
    · exact fits.slots i slot
    · exact fits.instrs block there i mem
  have apart : later.builder.finish.Apart globals := by
    refine ⟨params, distinct, fun i mem => ?_⟩
    obtain ⟨id, _, mem⟩ := Function.mem_instrs.mp mem
    exact (instrs id i mem).2
  have unique : ∀ use : TypedOperand, use.Fits (later.builder.finish.Defines globals) →
      use.Fits (later.builder.finish.HasType globals) := fun use fits =>
    fits.mono fun _ _ defines => defines.hasType wellFormed apart
  constructor
  · exact fun id _ i mem use read => unique use ((instrs id i mem).1 use read)
  · intro id _ terminator ends
    obtain ⟨block, there, ends⟩ := ends_finish pos ends
    have ends := fits.ends block there terminator ends
    exact ⟨fun use read => unique use (ends.1 use read), ends.2⟩

/-- What a state defines is defined in the function that it is finished to. -/
theorem covered_finish {globals : List Global} (pos : 0 < later.builder.blocks.length)
    (wellFormed : later.builder.finish.WellFormed) (kept : later.pool.globals ⊆ globals) :
    later.Covered (later.builder.finish.Defines globals) := by
  intro defined mem
  rcases List.mem_append.mp mem with code | constant
  · obtain ⟨i, mem, states⟩ := List.mem_filterMap.mp code
    exact .instr (mem_instrs_finish pos wellFormed.placed mem) states
  · obtain ⟨global, there, rfl⟩ := List.mem_map.mp constant
    exact .global (kept there)

/-- The parameters that a state starts with have their types. -/
def ParamsTyped (has : Operand → IrType → Prop) (start : FunctionState) : Prop :=
  ∀ param ∈ start.builder.params, has (.named param.name) param.type

/-- What a function leaves behind: its constants are added to the pool, and it is consistently typed
    in every module that has them. -/
structure Contributes (types : Registry) (returned : Option IrType) (before after : Progress)
    (function : Function) : Prop where
  globals : before.pool.globals ⊆ after.pool.globals
  regular : before.pool.Regular types → after.pool.Regular types
  typed : ∀ globals, before.pool.Regular types → after.pool.globals ⊆ globals →
    (globals.map Global.symbol).Nodup → function.Typed globals returned

/-- Steps that keep types right lead to a consistently typed function. -/
theorem contributes_finish {steps : Lowering Unit} (result : steps start = .ok () later)
    (typed : ∀ has, ParamsTyped has start → Typed env has True steps start fun _ _ => True)
    (begins : ∀ has, start.pool.Regular env.types → ParamsTyped has start → start.Covered has →
      start.Fits env has)
    (pos : 0 < start.builder.blocks.length)
    (distinct : (start.builder.params.map Param.name).Nodup)
    (wellFormed : later.builder.finish.WellFormed) :
    Contributes env.types env.outcome.returned start.toProgress later.toProgress
      later.builder.finish := by
  have grows : start.Grows later := by
    have always : ParamsTyped (fun _ _ => True) start := fun _ _ => trivial
    exact (typed _ always () later result).1
  have pos' := Nat.lt_of_lt_of_le pos grows.size
  have fits : ∀ globals, start.pool.Regular env.types → later.pool.globals ⊆ globals →
      later.Fits env (later.builder.finish.Defines globals) := by
    intro globals regular kept
    have params : ParamsTyped (later.builder.finish.Defines globals) start := by
      intro param mem
      rw [← grows.params] at mem
      exact .param mem
    have covered := covered_finish pos' wellFormed kept
    exact ((typed _ params () later result).2 covered
      (begins _ regular params (covered.of_grows grows)) trivial).1
  refine ⟨grows.globals, fun regular => ?_, fun globals regular kept nodup => ?_⟩
  · exact (fits _ regular (List.Subset.refl _)).pool
  · exact typed_finish pos' wellFormed (grows.params ▸ distinct) nodup (fits globals regular kept)

/-! ## Functions that can be called -/

theorem fits_paramValue {types : Registry} {has : Operand → IrType → Prop} {name : String}
    {type : TypeId} (typed : has (.named name) (types.paramIr type)) :
    (paramValue types name type).Fits types has := by
  refine ⟨?_, rfl⟩
  unfold Registry.paramIr at typed
  unfold paramValue
  dsimp only
  split <;> simp_all [Storage.Fits, TypedOperand.Fits]

theorem fits_addParams {types : Registry} {has : Operand → IrType → Prop} {function : String}
    {params : List Tree.Param} {opening : Opening}
    (entered : params.foldlM (Opening.addParam types function) {} = .ok opening)
    (typed : ∀ param ∈ opening.params, has (.named param.name) param.type) :
    ∀ name value, opening.scopes.lookup name = some value → value.Fits types has := by
  refine addParams_induct (motive := fun _ opening =>
    (∀ param ∈ opening.params, has (.named param.name) param.type) →
      ∀ name value, opening.scopes.lookup name = some value → value.Fits types has)
    entered (by simp) ?_ typed
  intro opening param rest type _ _ ih typed name value found
  rw [withParam, Scopes.lookup_define] at found
  split at found
  · cases found
    exact fits_paramValue (typed ⟨types.paramIr type, param.name⟩ (by simp [withParam]))
  · exact ih (fun param mem => typed param (List.mem_append_left _ mem)) name value found

theorem params_addParams {types : Registry} {function : String} {params : List Tree.Param}
    {opening : Opening}
    (entered : params.foldlM (Opening.addParam types function) {} = .ok opening) :
    opening.params.map Param.name = params.map Tree.Param.name := by
  have all := addParams_induct (motive := fun rest opening =>
    opening.params.map Param.name ++ rest.map Tree.Param.name = params.map Tree.Param.name)
    entered (by simp) ?_
  · simpa using all
  · intro opening param rest type _ _ ih
    simpa [withParam] using ih

/-- The state in which the body of a function is lowered. -/
def opened (source : Tree.Function) (opening : Opening) (progress : Progress) : FunctionState where
  toProgress := progress
  builder := { name := source.name, returns := .void, params := opening.params }
  scopes := opening.scopes.push
  supply := opening.supply

/-- The state in which the body of the entry is lowered. -/
def entryOpened (types : Registry) (arguments : TypeId) (progress : Progress) : FunctionState where
  toProgress := progress
  builder :=
    { name := entrySymbol, returns := .i32, params := [⟨.i32, "argc"⟩, ⟨argvType, "argv"⟩]
      attributes := ["nounwind", "ssp"]
      blocks := [{ instrs := Start.prologue types arguments }] }
  scopes := (Start.ofEntry types arguments).names.scopes
  supply := entryNames.foldl Supply.reserve {}

theorem build_ok {builder : Builder} {scopes : Scopes Value} {supply : Supply}
    {steps : Lowering Unit} {progress after : Progress} {function : Function}
    (result : build builder scopes supply steps progress = .ok function after) :
    ∃ later, steps { toProgress := progress, builder, scopes, supply } = .ok () later ∧
      function = later.builder.finish ∧ after = later.toProgress := by
  unfold build at result
  split at result
  · next later eq =>
      cases result
      exact ⟨later, eq, rfl, rfl⟩
  · cases result

variable {types : Registry} {signatures : SignatureTable}

/-- The body of a function keeps types right, and so does the return at its end. -/
theorem typed_body {has : Operand → IrType → Prop} {state : FunctionState} {outcome : Outcome}
    (faithful : Surroundings.Faithful ⟨types, signatures, outcome⟩)
    (result : ResultTyped ⟨types, signatures, outcome⟩ has) (body : List Stmt)
    {value : Option TypedOperand} (fits : (Terminator.ret value).Fits has outcome.returned) :
    Typed ⟨types, signatures, outcome⟩ has True
      (suite ⟨types, signatures, outcome⟩ body >>= fun _ => leaveAtEnd value) state
      fun _ _ => True :=
  (typed_suite faithful result body).andThen fun _ _ _ => typed_leaveAtEnd fits

theorem resultTyped_opening {has : Operand → IrType → Prop} {opening : Opening}
    {returns : TypeId} {source : Tree.Function} {progress : Progress}
    (params : ParamsTyped has (opened source (opening.addResult types returns) progress)) :
    ResultTyped ⟨types, signatures, .result returns⟩ has := by
  rintro _ ⟨⟩ valued
  refine params ⟨.ptr ⟨types.ir returns⟩, resultName⟩ ?_
  simp [opened, Opening.addResult, valued]

theorem fits_opening {has : Operand → IrType → Prop} {source : Tree.Function} {opening : Opening}
    {returns : TypeId} {progress : Progress}
    (entered : source.params.foldlM (Opening.addParam types source.name) {} = .ok opening)
    (regular : progress.pool.Regular types)
    (params : ParamsTyped has (opened source (opening.addResult types returns) progress)) :
    (opened source (opening.addResult types returns) progress).Fits
      ⟨types, signatures, .result returns⟩ has where
  current := Nat.one_pos
  instrs := by simp [opened]
  ends := by simp [opened]
  slots := by simp [opened]
  names := by
    intro name value found
    simp only [opened, scopes_addResult, Scopes.lookup_push] at found
    refine fits_addParams entered (fun param mem => params param ?_) name value found
    simp only [opened, Opening.addResult]
    split
    · exact mem
    · exact List.mem_append_left _ mem
  pool := regular

theorem nodup_opening {source : Tree.Function} (distinct : source.Distinct) {opening : Opening}
    {returns : TypeId} {progress : Progress}
    (entered : source.params.foldlM (Opening.addParam types source.name) {} = .ok opening) :
    ((opened source (opening.addResult types returns) progress).builder.params.map
      Param.name).Nodup := by
  have params := params_addParams entered
  simp only [opened, Opening.addResult]
  split
  · rw [params]
    exact distinct.nodup
  · rw [List.map_append, params]
    refine List.nodup_append.mpr ⟨distinct.nodup, by simp, fun name mem other last eq => ?_⟩
    have eq : name = resultName := eq.trans (List.mem_singleton.mp last)
    exact distinct.result (eq ▸ mem)

theorem lowerFunction_typed (faithful : types.Faithful) (coercion : signatures.get? "bool" = none)
    {entry : String} {source : Tree.Function} (other : source.name ≠ entry)
    (distinct : source.Distinct) {before after : Progress} {function : Function}
    (result : lowerFunction types signatures source before = .ok function after) :
    Contributes types none before after function := by
  obtain ⟨_, wellFormed⟩ := ((lowerFunction_yields source other before).ok result).wellFormed
  cases resolved : types.resolve source.returns with
  | error error =>
      simp only [lowerFunction, resolved, Bind.bind, Except.bind] at result
      cases result
  | ok returns =>
      cases entered : source.params.foldlM (Opening.addParam types source.name) {} with
      | error error =>
          simp only [lowerFunction, resolved, entered, Bind.bind, Except.bind] at result
          cases result
      | ok opening =>
          simp only [lowerFunction, resolved, entered, Bind.bind, Except.bind, pure, Except.pure]
            at result
          obtain ⟨later, ran, rfl, rfl⟩ := build_ok result
          exact contributes_finish ran
            (fun has params => typed_body ⟨faithful, coercion⟩ (resultTyped_opening params) _
              (fits_ret (by simp)))
            (fun has regular params _ => fits_opening entered regular params)
            Nat.one_pos (nodup_opening distinct entered) wellFormed

/-! ## The entry -/

theorem fits_openEntry (faithful : types.Faithful) {has : Operand → IrType → Prop}
    {arguments : TypeId} (resolved : types.resolve argumentsType.name = .ok arguments)
    {progress : Progress} (regular : progress.pool.Regular types)
    (params : ParamsTyped has (entryOpened types arguments progress))
    (covered : (entryOpened types arguments progress).Covered has) :
    (entryOpened types arguments progress).Fits ⟨types, signatures, .status⟩ has := by
  have texts : (⟨types.ir arguments⟩ : IrType) = .ptr ⟨types.ir Registry.string⟩ := by
    have found : types.lookup argumentsType.name = some arguments := by
      unfold Registry.resolve at resolved
      split at resolved
      · next id eq =>
          cases resolved
          exact eq
      · cases resolved
    rw [faithful.arguments arguments found, IrType.ptr]
  have defined : ∀ use ∈ (Start.prologue types arguments).filterMap Instr.defined?,
      has use.operand use.type := by
    intro use mem
    refine covered use (List.mem_append_left _ ?_)
    simpa [entryOpened] using mem
  simp only [Start.prologue, List.filterMap_cons, List.filterMap_nil, Instr.defined?, texts,
    List.forall_mem_cons, Option.map_none] at defined
  obtain ⟨decoded, first, name, rest, args, _⟩ := defined
  have argc := params ⟨.i32, "argc"⟩ (by simp [entryOpened])
  have argv := params ⟨argvType, "argv"⟩ (by simp [entryOpened])
  constructor
  · exact Nat.one_pos
  · simp only [entryOpened, List.mem_singleton, forall_eq, Start.prologue, texts]
    simp [Instr.Fits, Instr.uses, Instr.dest, Operand.isRegister, TypedOperand.Fits, decoded, first,
      rest, args, argc, argv]
  · simp [entryOpened]
  · simp [entryOpened]
  · intro asked value found
    simp only [entryOpened, Start.ofEntry, Scopes.lookup_push, Scopes.lookup_define,
      Scopes.lookup_empty] at found
    split at found
    · cases found
      refine ⟨?_, rfl⟩
      rw [Value.stable, texts]
      exact args
    · split at found
      · cases found
        exact ⟨name, rfl⟩
      · cases found
  · exact regular

theorem lowerEntry_typed (faithful : types.Faithful) (coercion : signatures.get? "bool" = none)
    {entry : String} {source : Tree.Function} (named : source.name = entry)
    {before after : Progress} {function : Function}
    (result : lowerEntry types signatures source before = .ok function after) :
    Contributes types (some .i32) before after function := by
  obtain ⟨_, wellFormed⟩ := ((lowerEntry_yields source named before).ok result).wellFormed
  cases resolved : types.resolve argumentsType.name with
  | error error =>
      simp only [lowerEntry, resolved] at result
      cases result
  | ok arguments =>
      simp only [lowerEntry, resolved] at result
      obtain ⟨later, ran, rfl, rfl⟩ := build_ok result
      have ran : (suite ⟨types, signatures, .status⟩ source.body >>= fun _ =>
          leaveAtEnd (some success)) (entryOpened types arguments before) = .ok () later := ran
      exact contributes_finish ran
        (fun has _ => typed_body ⟨faithful, coercion⟩ (by rintro _ ⟨⟩) _
          (fits_ret (by simp [success, TypedOperand.Fits])))
        (fun has regular params covered => fits_openEntry faithful resolved regular params covered)
        Nat.one_pos (by simp [entryOpened]) wellFormed

end Lowering

/-! ## Modules -/

namespace SignatureTable

theorem get?_enterAll {table later : SignatureTable} {name : String}
    {functions : List (String × Except CodegenError Signature)}
    (entered : enterAll table functions = .ok later)
    (absent : ∀ function ∈ functions, function.1 ≠ name) : later.get? name = table.get? name := by
  induction functions generalizing table with
  | nil =>
      cases entered
      rfl
  | cons function rest ih =>
      obtain ⟨here, others⟩ := List.forall_mem_cons.mp absent
      obtain ⟨first, signature⟩ := function
      cases signature with
      | error error => cases entered
      | ok signature =>
          have entered : enterAll (table.insert first signature) rest = .ok later := entered
          rw [ih entered others]
          exact NameMap.get?_insert_of_ne table signature (Ne.symm here)

/-- Only a function of the module could take the place of the coercion to truth values. -/
theorem get?_collect_bool {source : Tree.Module} {types : Registry} {entry : String}
    {signatures : SignatureTable} (collected : collect source types entry = .ok signatures)
    (absent : ∀ function ∈ source.functions, function.name ≠ "bool") :
    signatures.get? "bool" = none := by
  unfold collect at collected
  cases library : builtins types with
  | error error =>
      rw [library] at collected
      cases collected
  | ok table =>
      rw [library] at collected
      have kept : signatures.get? "bool" = table.get? "bool" := by
        refine get?_enterAll collected fun function mem => ?_
        obtain ⟨declared, there, rfl⟩ := List.mem_map.mp mem
        exact absent declared (List.mem_of_mem_filter there)
      rw [kept, get?_enterAll library (by simp [Signature.library])]
      rfl

end SignatureTable

namespace Codegen

theorem ofExcept_ok {α : Type} {check : Except CodegenError α} {before after : Progress} {value : α}
    (result : ofExcept check before = .ok value after) : check = .ok value ∧ after = before := by
  cases check with
  | error error => cases result
  | ok found =>
      cases result
      exact ⟨rfl, rfl⟩

/-- The type of what a function of a module returns: the entry returns a status. -/
def returned (entry : String) (declared : Tree.Function) : Option IrType :=
  if declared.name = entry then some .i32 else none

variable {types : Registry} {signatures : SignatureTable} {entry : String}

theorem function_typed (faithful : types.Faithful) (coercion : signatures.get? "bool" = none)
    {declared : Tree.Function} (distinct : declared.Distinct) {before after : Progress}
    {lowered : Function}
    (result : function types signatures entry declared before = .ok lowered after) :
    Lowering.Contributes types (returned entry declared) before after lowered := by
  unfold function at result
  unfold returned
  split at result
  · next named =>
      rw [if_pos named]
      obtain ⟨found, between, ran, rest⟩ := exists_of_bind result
      cases rest
      have contributes := Lowering.lowerEntry_typed faithful coercion named ran
      exact ⟨contributes.globals, contributes.regular, contributes.typed⟩
  · next other =>
      rw [if_neg other]
      obtain ⟨found, between, ran, rest⟩ := exists_of_bind result
      cases rest
      have contributes := Lowering.lowerFunction_typed faithful coercion other distinct ran
      exact ⟨contributes.globals, contributes.regular, contributes.typed⟩

theorem functions_typed (faithful : types.Faithful) (coercion : signatures.get? "bool" = none)
    {declared : List Tree.Function} (distinct : ∀ function ∈ declared, function.Distinct)
    {before after : Progress} {lowered : List Function} (regular : before.pool.Regular types)
    (result : functions types signatures entry declared before = .ok lowered after) :
    before.pool.globals ⊆ after.pool.globals ∧ after.pool.Regular types ∧
      ∀ globals, after.pool.globals ⊆ globals → (globals.map Global.symbol).Nodup →
        List.Forall₂ (fun source function => function.Typed globals (returned entry source))
          declared lowered := by
  induction declared generalizing before lowered with
  | nil =>
      cases result
      exact ⟨List.Subset.refl _, regular, fun _ _ _ => .nil⟩
  | cons source rest ih =>
      obtain ⟨here, others⟩ := List.forall_mem_cons.mp distinct
      obtain ⟨first, between, ran, result⟩ := exists_of_bind result
      obtain ⟨last, ending, ran', result⟩ := exists_of_bind result
      cases result
      have contributes := function_typed faithful coercion here ran
      obtain ⟨kept, regular', typed⟩ := ih others (contributes.regular regular) ran'
      refine ⟨List.Subset.trans contributes.globals kept, regular', fun globals all nodup => ?_⟩
      exact .cons (contributes.typed globals regular (List.Subset.trans kept all) nodup)
        (typed globals all nodup)

/-- In a generated module each use of an operand asks for the type that the only definition of the
    operand states, and only the entry returns a value, which is a status. -/
theorem generate_typed {source : Tree.Module} {options : CodegenOptions} {generated : Module}
    (faithful : types.Faithful)
    (coercion : ∀ function ∈ source.functions, function.name ≠ "bool")
    (distinct : ∀ function ∈ source.functions, function.Distinct)
    (accepted : (run (generate source types options)).1 = .ok generated) :
    List.Forall₂
      (fun declared function => function.Typed generated.globals (returned options.entry declared))
      source.functions generated.functions := by
  unfold run at accepted
  split at accepted
  · next after result =>
      cases accepted
      obtain ⟨triple, _, found, result⟩ := exists_of_bind result
      obtain ⟨_, rfl⟩ := ofExcept_ok found
      obtain ⟨signatures, _, found, result⟩ := exists_of_bind result
      obtain ⟨collected, rfl⟩ := ofExcept_ok found
      obtain ⟨_, noted, noting, result⟩ := exists_of_bind result
      cases noting
      obtain ⟨lowered, lowering, ran, result⟩ := exists_of_bind result
      obtain ⟨_, regular, typed⟩ := functions_typed faithful
        (SignatureTable.get?_collect_bool collected coercion) distinct (Pool.regular_empty types) ran
      have typed := typed _ (List.Subset.refl _) regular.nodup
      cases given : options.preamble with
      | some text =>
          simp only [given] at result
          cases result
          exact typed
      | none =>
          simp only [given] at result
          obtain ⟨preamble, last, derived, ending⟩ := exists_of_bind result
          obtain ⟨_, rfl⟩ := ofExcept_ok derived
          cases ending
          exact typed
  · cases accepted

/-- Texts, numbers and elements of a container, in a function and in the entry. -/
def greeting : Tree.Module where
  functions :=
    [{ name := "greet", params := [⟨"who", "str"⟩, ⟨"times", "int"⟩], returns := "str"
       body :=
        [.forLoop "i" (.call "range" [.int 0, .name "times", .int 1])
          [.assign "who" (.binary .add (.name "who") (.string "!"))],
         .ret (some (.or (.name "who") (.string "nobody")))] },
     { name := "__main__"
       body :=
        [.effect (.call "print" [.call "greet" [.index (.name "args") (.int 0), .int 3]]),
         .ifChain [.mk (some (.binary .notEq (.name "name") (.string "")))
          [.effect (.call "print" [.name "name"])]]] }]

theorem greeting_typed : (Registry.builtin.Faithful ∧
    (∀ function ∈ greeting.functions, function.name ≠ "bool") ∧
    ∀ function ∈ greeting.functions, function.Distinct) ∧
    ∃ generated, (run (generate greeting .builtin {})).1 = .ok generated ∧
      List.Forall₂
        (fun declared function => function.Typed generated.globals (returned "__main__" declared))
        greeting.functions generated.functions := by
  have coercion : ∀ function ∈ greeting.functions, function.name ≠ "bool" := by decide
  have distinct : ∀ function ∈ greeting.functions, function.Distinct := by
    simp only [greeting, List.forall_mem_cons]
    exact ⟨⟨by decide, by decide⟩, ⟨by decide, by decide⟩, by simp⟩
  have accepted : (run (generate greeting .builtin {})).1.toBool = true := by decide +kernel
  cases result : (run (generate greeting .builtin {})).1 with
  | error error => simp [result, Except.toBool] at accepted
  | ok generated =>
      exact ⟨⟨Registry.faithful_builtin, coercion, distinct⟩, generated, rfl,
        generate_typed Registry.faithful_builtin coercion distinct result⟩

end Codegen

end LlvmBackend
