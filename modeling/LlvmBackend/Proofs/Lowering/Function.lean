import LlvmBackend.Proofs.Emitted
import LlvmBackend.Proofs.Lowering.Stmt

/-! # Functions

Lowering a function gives one that stands for it.
-/

namespace LlvmBackend

open Ir FunctionState Lowering

namespace Start

/-- Instructions that may stand before all code: they define no temporary and merge nothing. -/
def Plain (instrs : List Instr) : Prop :=
  ∀ instr ∈ instrs, instr.number? = none ∧ instr.incoming? = none

theorem plain_prologue (types : Registry) (arguments : TypeId) : Plain (prologue types arguments) := by
  simp [Plain, prologue, Instr.number?, Instr.dest, Operand.temp?, Instr.incoming?]

theorem plain_slots {slots : List Instr}
    (named : ∀ slot ∈ slots, ∃ name type, slot = .alloca (.named name) type) : Plain slots := by
  intro slot mem
  obtain ⟨name, type, rfl⟩ := named slot mem
  exact ⟨rfl, rfl⟩

variable {start : Start} {slots : List Instr}

theorem site_isOpen : (start.site slots).Open := rfl

theorem site_valid (plain : Plain (slots ++ start.before)) : (start.site slots).Valid where
  last := rfl
  nodup := by simp [Site.layout, site]
  placed_lt := by simp [Site.layout, site]
  blank := by
    intro id new
    have : id ≠ 0 := by simpa [Site.layout, site] using new
    simp [site, this]
  closed := by
    intro id mem ne
    have : id = 0 := by simpa [Site.layout, site] using mem
    exact absurd this ne
  targets := by
    intro id target mem
    have : ((start.site slots).table id).terminator = none := by
      simp only [site]
      split <;> rfl
    simp [Block.successors, this] at mem
  nextLabel := rfl
  entryLabel := rfl
  labels := by
    intro id pos lt
    simp only [site] at lt
    exact absurd (Nat.lt_of_lt_of_le pos (Nat.le_of_lt_succ lt)) (Nat.lt_irrefl _)
  lead := by
    intro id
    simp only [site]
    split
    · exact List.pairwise_of_forall_mem_list fun _ _ after mem isPhi => by
        simp [Instr.isPhi, (plain after mem).2] at isPhi
    · exact .nil
  merges := by
    intro id instr mem incoming eq
    simp only [site] at mem
    split at mem
    · simp [(plain instr mem).2] at eq
    · simp at mem
  nextTemp := Nat.one_pos
  temps := by
    have : (start.site slots).instrs = slots ++ start.before := by
      simp [Site.instrs, Site.layout, site]
    rw [this]
    exact List.filterMap_eq_nil_iff.mpr fun instr mem => (plain instr mem).1

end Start

namespace Lowering

variable {slots : List Instr} {state : FunctionState}

theorem leaveAtEnd_builds {middle : FunctionState} {code : Code} {ended : Bool}
    (runs : Runs slots state code ended middle) (value : Option TypedOperand) :
    Yields (leaveAtEnd value) middle fun _ later =>
      Build none (state.site slots) (code.returning ended value) (later.site slots) ∧
        ¬ (later.site slots).Open ∧ later.header = state.header := by
  refine isTerminated_yields.bind ?_
  rintro _ middle ⟨rfl, rfl⟩
  cases ended with
  | false =>
      have isOpen := runs.open_iff.mpr rfl
      simp only [(terminated_iff slots).mpr isOpen]
      refine (terminate_runs (runs.ready rfl) value).mono ?_
      rintro _ later ⟨runs', keeps⟩
      refine ⟨.seq runs.build isOpen runs'.build, ?_, keeps.header.trans runs.header⟩
      simp [runs'.open_iff]
  | true =>
      have closed : ¬ (middle.site slots).Open := by simp [runs.open_iff]
      simp only [terminated_of_not_open closed]
      exact Yields.done ⟨runs.build, closed, runs.header⟩

/-- A state that is as a function starts. -/
structure StartsAs (start : Start) (state : FunctionState) : Prop where
  site : ∀ slots, state.site slots = start.site slots
  names : state.names = start.names
  header : state.header = start.header

/-- Where a function starts, the block in use takes instructions. -/
theorem StartsAs.ready {start : Start} (startsAs : StartsAs start state)
    (plain : Start.Plain (slots ++ start.before)) : state.Ready slots := by
  have site := startsAs.site slots
  exact ⟨site ▸ Start.site_valid plain, site ▸ Start.site_isOpen⟩

variable {types : Registry} {signatures : SignatureTable} {start : Start}

theorem body_builds (types : Registry) (signatures : SignatureTable)
    (startsAs : StartsAs start state) (plain : Start.Plain (slots ++ start.before))
    (body : List Stmt) :
    Yields (suite ⟨types, signatures, start.outcome⟩ body >>= fun _ => leaveAtEnd start.atEnd) state
      fun _ later => later.header = start.header ∧ ∃ names ended code,
        Translation.Lowers ⟨types, signatures, start.outcome⟩ (.suite body) start.names names ended
          code ∧
        Build none (start.site slots) (code.returning ended start.atEnd) (later.site slots) ∧
        ¬ (later.site slots).Open := by
  refine (suite_runs _ body (startsAs.ready plain)).bind ?_
  rintro _ middle ⟨ended, code, lowers, runs⟩
  refine (leaveAtEnd_builds runs _).mono ?_
  rintro _ later ⟨build, closed, header⟩
  rw [startsAs.names] at lowers
  rw [startsAs.site] at build
  exact ⟨header.trans startsAs.header, _, _, _, lowers, build, closed⟩

theorem finish_block (pos : 0 < state.builder.blocks.length) :
    state.builder.finish.block = (state.site state.builder.slots).table := by
  funext id
  simp only [Function.block, Builder.finish, site, List.getElem?_modify]
  by_cases eq : id = 0
  · subst eq
    rw [List.getElem?_eq_getElem pos]
    simp
  · simp [eq, Ne.symm eq]

/-- What is built from a start is an emitted function. -/
theorem body_emitted (startsAs : StartsAs start state) (plain : Start.Plain start.before)
    (body : List Stmt) :
    Yields (suite ⟨types, signatures, start.outcome⟩ body >>= fun _ => leaveAtEnd start.atEnd) state
      fun _ later => Emitted types signatures start body later.builder.finish := by
  have behind : ∀ {slots}, Start.Plain slots → Start.Plain (slots ++ start.before) :=
    fun named instr mem => (List.mem_append.mp mem).elim (named instr) (plain instr)
  have none : Start.Plain [] := by simp [Start.Plain]
  -- The slots are known only afterwards, so they are taken from what is built with any others.
  refine .intro (fun _ later result => ?_) fun error later result =>
    (body_builds types signatures startsAs (behind none) body).error result
  obtain ⟨_, _, _, _, _, build, _⟩ :=
    (body_builds types signatures startsAs (behind none) body).ok result
  have grows := (build.built (Start.site_valid (behind none)) Start.site_isOpen (by simp)).grows
  obtain ⟨new, eq, _⟩ := grows.slots
  have named : ∀ slot ∈ later.builder.slots, ∃ name type, slot = .alloca (.named name) type := by
    have eq : later.builder.slots = new.map fun slot => .alloca (.named slot.1) slot.2 := eq
    rw [eq]
    intro slot mem
    obtain ⟨pair, _, rfl⟩ := List.mem_map.mp mem
    exact ⟨_, _, rfl⟩
  obtain ⟨header, names, ended, code, lowers, build, closed⟩ :=
    (body_builds types signatures startsAs (behind (Start.plain_slots named)) body).ok result
  have grows := (build.built (Start.site_valid (behind (Start.plain_slots named)))
    Start.site_isOpen (by simp)).grows
  have pos : 0 < later.builder.blocks.length :=
    Nat.lt_of_lt_of_le grows.before.size_pos grows.size
  refine .intro later.builder.slots _ lowers named build closed rfl (finish_block pos) rfl ?_ ?_
  · simp [Builder.finish, site]
  · rw [← header]
    rfl

/-! ## Functions that can be called -/

/-- What adding a parameter gives. -/
theorem addParam_eq (types : Registry) (function : String) (opening : Opening) (param : Tree.Param) :
    Opening.addParam types function opening param =
      match types.resolve param.type with
      | .error error => .error error
      | .ok type =>
        if type = Registry.void then .error (.voidValue function)
        else .ok {
          scopes := opening.scopes.define param.name (paramValue types param.name type)
          supply := opening.supply.reserve param.name
          params := opening.params ++ [⟨types.paramIr type, param.name⟩] } := by
  unfold Opening.addParam
  cases types.resolve param.type with
  | error error => rfl
  | ok type =>
      by_cases void : type = Registry.void
      · simp [void, Bind.bind, Except.bind, throw, throwThe, MonadExceptOf.throw]
      · simp [void, Bind.bind, Except.bind, pure, Except.pure]

theorem addParam_proper (types : Registry) (function : String) (opening : Opening)
    (param : Tree.Param) : FailsProperly (Opening.addParam types function opening param) := by
  rw [addParam_eq]
  split
  · next error resolved => exact .error (FailsProperly.resolve types _ _ resolved)
  · split
    · exact .error trivial
    · exact .ok _

/-- The opening with one more parameter. -/
def withParam (types : Registry) (opening : Opening) (name : String) (type : TypeId) : Opening where
  scopes := opening.scopes.define name (paramValue types name type)
  supply := opening.supply.reserve name
  params := opening.params ++ [⟨types.paramIr type, name⟩]

/-- What holds of an opening before its parameters and is kept by each of them holds of the opening
    with all of them. -/
theorem addParams_induct {types : Registry} {function : String} {params : List Tree.Param}
    {opening later : Opening} {motive : List Tree.Param → Opening → Prop}
    (eq : params.foldlM (Opening.addParam types function) opening = .ok later)
    (first : motive params opening)
    (step : ∀ (opening : Opening) (param : Tree.Param) (rest : List Tree.Param) (type : TypeId),
      types.resolve param.type = .ok type → type ≠ Registry.void → motive (param :: rest) opening →
      motive rest (withParam types opening param.name type)) : motive [] later := by
  induction params generalizing opening with
  | nil =>
      cases eq
      exact first
  | cons param params ih =>
      rw [List.foldlM_cons, addParam_eq] at eq
      cases resolved : types.resolve param.type with
      | error error' =>
          rw [resolved] at eq
          cases eq
      | ok type =>
          rw [resolved] at eq
          by_cases void : type = Registry.void
          · simp only [if_pos void] at eq
            cases eq
          · simp only [if_neg void] at eq
            exact ih eq (step opening param params type resolved void first)

/-- Parameters take names and no number. -/
theorem addParams_supply {function : String} {params : List Tree.Param} {opening later : Opening}
    (eq : params.foldlM (Opening.addParam types function) opening = .ok later) :
    later.supply.nextTemp = opening.supply.nextTemp ∧
      later.supply.nextLabel = opening.supply.nextLabel := by
  refine addParams_induct (motive := fun _ middle => middle.supply.nextTemp = opening.supply.nextTemp ∧
      middle.supply.nextLabel = opening.supply.nextLabel) eq ⟨rfl, rfl⟩ ?_
  exact fun _ _ _ _ _ _ kept => kept

@[simp] theorem scopes_addResult (types : Registry) (opening : Opening) (returns : TypeId) :
    (opening.addResult types returns).scopes = opening.scopes := by
  unfold Opening.addResult
  split <;> rfl

theorem used_addResult (types : Registry) (opening : Opening) (returns : TypeId) :
    opening.supply.used ⊆ (opening.addResult types returns).supply.used := by
  unfold Opening.addResult
  split
  · exact List.Subset.refl _
  · exact List.subset_cons_self _ _

theorem addResult_supply (types : Registry) (opening : Opening) (returns : TypeId) :
    (opening.addResult types returns).supply.nextTemp = opening.supply.nextTemp ∧
      (opening.addResult types returns).supply.nextLabel = opening.supply.nextLabel := by
  unfold Opening.addResult
  split <;> exact ⟨rfl, rfl⟩

theorem startsAs_opened (progress : Progress) (source : Tree.Function) (returns : TypeId)
    (opening : Opening) (temp : opening.supply.nextTemp = 1) (label : opening.supply.nextLabel = 1) :
    StartsAs (.ofOpening source returns opening)
      { toProgress := progress
        builder := { name := source.name, returns := .void, params := opening.params }
        scopes := opening.scopes.push, supply := opening.supply } where
  site := by
    intro slots
    simp only [FunctionState.site, Start.site, Start.ofOpening, temp, label]
    congr 1
    funext id
    by_cases eq : id = 0
    · simp [eq]
    · simp [eq]
  names := rfl
  header := rfl

theorem build_yields {start : Start} {progress : Progress} {builder : Builder}
    {scopes : Scopes Value} {supply : Supply} {steps : Lowering Unit} {body : List Stmt}
    (h : Yields steps { toProgress := progress, builder, scopes, supply } fun _ later =>
      Emitted types signatures start body later.builder.finish) :
    Yields (build builder scopes supply steps) progress fun function _ =>
      Emitted types signatures start body function := by
  unfold Yields build at *
  revert h
  cases steps { toProgress := progress, builder, scopes, supply } <;> exact id

theorem lowerFunction_yields {entry : String} (source : Tree.Function)
    (other : source.name ≠ entry) (progress : Progress) :
    Yields (lowerFunction types signatures source) progress fun function _ =>
      Renders types signatures entry source function := by
  cases resolved : types.resolve source.returns with
  | error error =>
      refine (Yields.fails (FailsProperly.resolve types _ _ resolved)).congr ?_
      simp only [lowerFunction, resolved, Bind.bind, Except.bind]
      rfl
  | ok returns =>
      cases entered : source.params.foldlM (Opening.addParam types source.name) {} with
      | error error =>
          refine (Yields.fails (FailsProperly.foldlM _ _ (addParam_proper types source.name) _ entered)).congr ?_
          simp only [lowerFunction, resolved, entered, Bind.bind, Except.bind]
          rfl
      | ok opening =>
          obtain ⟨temp, label⟩ := addParams_supply entered
          obtain ⟨temp', label'⟩ := addResult_supply types opening returns
          have startsAs := startsAs_opened progress source returns (opening.addResult types returns)
            (temp'.trans temp) (label'.trans label)
          have plain : Start.Plain
              (Start.ofOpening source returns (opening.addResult types returns)).before := by
            simp [Start.Plain, Start.ofOpening]
          have emitted : Yields _ _ fun _ (later : FunctionState) =>
              Emitted types signatures _ source.body later.builder.finish :=
            body_emitted startsAs plain source.body
          have built := build_yields emitted
          refine (built.mono fun function _ emitted =>
            ⟨_, .function other resolved entered, emitted⟩).congr ?_
          simp only [lowerFunction, resolved, entered, Bind.bind, Except.bind, pure, Except.pure]
          rfl

/-! ## The entry -/

theorem startsAs_entry (arguments : TypeId) (progress : Progress) :
    StartsAs (.ofEntry types arguments)
      { toProgress := progress
        builder :=
          { name := entrySymbol, returns := .i32, params := [⟨.i32, "argc"⟩, ⟨argvType, "argv"⟩]
            attributes := ["nounwind", "ssp"]
            blocks := [{ instrs := Start.prologue types arguments }] }
        scopes := (Start.ofEntry types arguments).names.scopes
        supply := entryNames.foldl Supply.reserve {} } where
  site := by
    intro slots
    simp only [FunctionState.site, Start.site]
    congr 1
    funext id
    by_cases eq : id = 0
    · simp [eq, Start.ofEntry]
    · simp [eq]
  names := rfl
  header := rfl

theorem entry_emitted (types : Registry) (signatures : SignatureTable) (arguments : TypeId)
    (progress : Progress) (body : List Stmt) :
    Yields (do
        openEntry types arguments
        suite ⟨types, signatures, .status⟩ body
        leaveAtEnd (some success))
      { toProgress := progress
        builder :=
          { name := entrySymbol, returns := .i32, params := [⟨.i32, "argc"⟩, ⟨argvType, "argv"⟩]
            attributes := ["nounwind", "ssp"] }
        scopes := .empty, supply := entryNames.foldl Supply.reserve {} }
      fun _ later =>
        Emitted types signatures (.ofEntry types arguments) body later.builder.finish := by
  have emitted : Yields _ _ fun _ (later : FunctionState) =>
      Emitted types signatures (.ofEntry types arguments) body later.builder.finish :=
    body_emitted (startsAs_entry arguments progress) (Start.plain_prologue types arguments) body
  exact emitted.congr rfl

theorem lowerEntry_yields {entry : String} (source : Tree.Function)
    (named : source.name = entry) (progress : Progress) :
    Yields (lowerEntry types signatures source) progress fun function _ =>
      Renders types signatures entry source function := by
  cases resolved : types.resolve argumentsType.name with
  | error error =>
      refine (Yields.fails (FailsProperly.resolve types _ _ resolved)).congr ?_
      simp only [lowerEntry, resolved]
      rfl
  | ok arguments =>
      have built := build_yields (entry_emitted types signatures arguments progress source.body)
      refine (built.mono fun function _ emitted => ⟨_, .entry named resolved, emitted⟩).congr ?_
      simp only [lowerEntry, resolved]

end Lowering

end LlvmBackend
