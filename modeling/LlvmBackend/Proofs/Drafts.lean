import LlvmBackend.Proofs.Acceptance
import LlvmBackend.Proofs.Relocation

/-! # Drafts of functions

A function that is lowered before all others is a draft of what it is lowered to anywhere else: the
functions of a module are the drafts with the numbers of their literals shifted, each behind the
numbers of the ones before it.
-/

namespace LlvmBackend

open Ir Checker

/-- What a function is lowered to if nothing stands before it. -/
structure Draft (types : Registry) (signatures : SignatureTable) (entry : String) where
  source : Tree.Function
  lowered : Function
  after : Progress
  result : Codegen.function types signatures entry source {} = .ok lowered after

/-- A function at its place in a module, and the constants of its numbers and texts. -/
structure Placed where
  source : Tree.Function
  lowered : Function
  constants : List Global

namespace Placed

/-- The same with other numbers of literals. -/
def renumber (number : Nat → Nat) (placed : Placed) : Placed where
  source := placed.source
  lowered := placed.lowered.rename (Pool.renumber number)
  constants := placed.constants.map (·.rename (Pool.renumber number))

theorem renumber_renumber (number again : Nat → Nat) (placed : Placed) :
    (placed.renumber number).renumber again = placed.renumber (again ∘ number) := by
  have twice : Pool.renumber again ∘ Pool.renumber number = Pool.renumber (again ∘ number) :=
    funext fun symbol => Pool.renumber_renumber number again symbol
  simp only [renumber, Function.rename_rename, List.map_map, twice, Function.comp_def,
    Global.rename_rename]

end Placed

namespace Draft

variable {types : Registry} {signatures : SignatureTable} {entry : String}

/-- How many numbers and texts the function has. -/
def count (draft : Draft types signatures entry) : Nat := draft.after.pool.count

/-- The function with other numbers of its literals. -/
def placed (draft : Draft types signatures entry) (number : Nat → Nat) : Placed where
  source := draft.source
  lowered := draft.lowered.rename (Pool.renumber number)
  constants := draft.after.pool.numbered.map (·.rename (Pool.renumber number))

/-- Functions one after the other, the first literal with the given number. -/
def place (n : Nat) : List (Draft types signatures entry) → List Placed
  | [] => []
  | first :: rest => first.placed (n + ·) :: place (n + first.count) rest

/-- There is one draft of a function. -/
theorem source_injective :
    Function.Injective (source : Draft types signatures entry → Tree.Function) := by
  rintro ⟨source, lowered, after, result⟩ ⟨_, lowered', after', result'⟩ rfl
  rw [result] at result'
  cases result'
  rfl

theorem renumber_placed (draft : Draft types signatures entry) (number again : Nat → Nat) :
    (draft.placed number).renumber again = draft.placed (again ∘ number) :=
  Placed.renumber_renumber number again ⟨draft.source, draft.lowered, draft.after.pool.numbered⟩

theorem map_source_place (n : Nat) (drafts : List (Draft types signatures entry)) :
    (place n drafts).map (·.source) = drafts.map (·.source) := by
  induction drafts generalizing n with
  | nil => rfl
  | cons first rest ih => exact congrArg (first.source :: ·) (ih _)

/-- Behind some progress, with given numbers of the literals. -/
def relocation (draft : Draft types signatures entry) (before : Progress) {number : Nat → Nat}
    (injective : Function.Injective number)
    (shifts : ∀ k < draft.count, number k = before.pool.count + k) : Relocation where
  before
  number
  injective
  bound := draft.count
  shifts

theorem shift_injective (n : Nat) : Function.Injective (n + ·) := fun _ _ => Nat.add_left_cancel

/-- Where a function stands, its draft with other numbers is what it is lowered to. -/
theorem function_eq (draft : Draft types signatures entry) (before : Progress)
    {number : Nat → Nat} (injective : Function.Injective number)
    (shifts : ∀ k < draft.count, number k = before.pool.count + k) :
    Codegen.function types signatures entry draft.source before =
      .ok (draft.placed number).lowered
        ((draft.relocation before injective shifts).progress draft.after) := by
  have start : (draft.relocation before injective shifts).progress {} = before := by
    simp [relocation, Relocation.progress, Pool.behind_empty]
  have carried : Lowering.Carries types (draft.relocation before injective shifts)
      (Codegen.function types signatures entry draft.source) := Codegen.carries_function _ _
  have ran := (carried {} draft.lowered draft.after draft.result).2 (Nat.le_refl _)
  rwa [start] at ran

/-- A function has no literals but its own: what other numbers stand for does not matter. -/
theorem placed_eq (draft : Draft types signatures entry) {n : Nat} {number : Nat → Nat}
    (injective : Function.Injective number) (shifts : ∀ k < draft.count, number k = n + k) :
    draft.placed number = draft.placed (n + ·) := by
  have there := draft.function_eq { pool := { count := n } } injective shifts
  have same := draft.function_eq { pool := { count := n } } (shift_injective n) fun _ _ => rfl
  rw [there] at same
  obtain ⟨lowered, progress⟩ := EStateM.Result.ok.inj same
  have constants := congrArg (fun progress : Progress => progress.pool.numbered) progress
  simp only [Relocation.progress, Pool.numbered_behind] at constants
  exact (Placed.mk.injEq ..).mpr ⟨rfl, lowered, List.append_cancel_left constants⟩

end Draft

/-! ## Functions one after the other -/

namespace Codegen

variable {types : Registry} {signatures : SignatureTable} {entry : String}

/-- A function only adds literals to the pool. -/
theorem function_later {source : Tree.Function} {before after : Progress} {lowered : Function}
    (ran : function types signatures entry source before = .ok lowered after) :
    Pool.Later types before.pool after.pool := by
  have carried : Lowering.Carries types ⟨{}, id, Function.injective_id, 0, by simp⟩
      (function types signatures entry source) := carries_function entry source
  exact (carried before lowered after ran).1

theorem functions_later {sources : List Tree.Function} {before after : Progress}
    {lowered : List Function}
    (ran : functions types signatures entry sources before = .ok lowered after) :
    Pool.Later types before.pool after.pool := by
  induction sources generalizing before lowered with
  | nil =>
      cases ran
      exact .refl
  | cons source rest ih =>
      obtain ⟨first, between, here, others⟩ := exists_of_bind ran
      obtain ⟨last, _, there, ending⟩ := exists_of_bind others
      cases ending
      exact (function_later here).trans (ih there)

/-- What functions leave behind: the truth values if one of them has a truth value, and their
    constants in their order. -/
structure Filled (drafts : List (Draft types signatures entry)) (before after : Progress) :
    Prop where
  numbered : after.pool.numbered = before.pool.numbered ++
    (Draft.place before.pool.count drafts).flatMap (·.constants)
  hasBools : after.pool.hasBools =
    (before.pool.hasBools || drafts.any (·.after.pool.hasBools))

theorem functions_eq (drafts : List (Draft types signatures entry)) (before : Progress) :
    ∃ after, functions types signatures entry (drafts.map (·.source)) before =
      .ok ((Draft.place before.pool.count drafts).map (·.lowered)) after ∧
        Filled drafts before after := by
  induction drafts generalizing before with
  | nil => exact ⟨before, rfl, by simp [Draft.place], by simp⟩
  | cons first rest ih =>
      have ran := first.function_eq before (Draft.shift_injective _) fun _ _ => rfl
      obtain ⟨after, others, filled⟩ := ih
        ((first.relocation before (Draft.shift_injective _) fun _ _ => rfl).progress first.after)
      refine ⟨after, ?_, ?_, ?_⟩
      · simp only [List.map_cons, functions, Bind.bind, EStateM.bind, ran, others]
        rfl
      · rw [filled.numbered]
        simp only [Relocation.progress, Pool.numbered_behind, Draft.place, List.flatMap_cons,
          List.append_assoc]
        rfl
      · rw [filled.hasBools, List.any_cons, ← Bool.or_assoc]
        rfl

theorem exists_drafts {sources : List Tree.Function}
    (checked : ∀ source ∈ sources, (checkFunction types signatures entry source).isSome) :
    ∃ drafts : List (Draft types signatures entry), drafts.map (·.source) = sources := by
  induction sources with
  | nil => exact ⟨[], rfl⟩
  | cons first rest ih =>
      obtain ⟨here, others⟩ := List.forall_mem_cons.mp checked
      obtain ⟨lowered, after, result⟩ := (function_accepts first {}).mpr here
      obtain ⟨drafts, eq⟩ := ih others
      exact ⟨⟨first, lowered, after, result⟩ :: drafts, by rw [List.map_cons, eq]⟩

/-! ## Modules -/

/-- The preamble of a module that defines the given symbols. -/
def preamble (types : Registry) (signatures : SignatureTable) (options : CodegenOptions)
    (defined : List String) : Except CodegenError Preamble :=
  match options.preamble with
  | some text => .ok (.verbatim text)
  | none => Preamble.derive types signatures defined

/-- The constants of a module that is made of drafts. -/
def constants (drafts : List (Draft types signatures entry)) : List Global :=
  (if drafts.any (·.after.pool.hasBools) then Pool.truths types else []) ++
    (Draft.place 0 drafts).flatMap (·.constants)

/-- A module that is made of drafts. -/
structure Drafted (types : Registry) (options : CodegenOptions) (source : Tree.Module)
    (signatures : SignatureTable) (drafts : List (Draft types signatures options.entry))
    (generated : Module) : Prop where
  triple : Platform.triple options.platform = .ok generated.triple
  collected : SignatureTable.collect source types options.entry = .ok signatures
  sources : drafts.map (·.source) = source.functions
  preamble : preamble types signatures options (generated.functions.map (·.name)) =
    .ok generated.preamble
  functions : generated.functions = (Draft.place 0 drafts).map (·.lowered)
  globals : generated.globals.Perm (constants drafts)

theorem run_eq_ok {α : Type} {steps : Codegen α} {value : α} :
    (run steps).1 = .ok value ↔ ∃ after, steps {} = .ok value after := by
  unfold run
  cases steps {} <;> simp

theorem ofExcept_bind_eq_ok {α β : Type} {check : Except CodegenError α} {next : α → Codegen β}
    {before after : Progress} {value : β} : (ofExcept check >>= next) before = .ok value after ↔
      ∃ found, check = .ok found ∧ next found before = .ok value after := by
  cases check with
  | ok found => exact ⟨fun rest => ⟨found, rfl, rest⟩, by rintro ⟨_, ⟨⟩, rest⟩; exact rest⟩
  | error error => exact iff_of_false (by rintro ⟨⟩) (by rintro ⟨_, ⟨⟩, _⟩)

/-- A given preamble is taken like a derived one. -/
theorem generate_eq (source : Tree.Module) (types : Registry) (options : CodegenOptions) :
    generate source types options = (do
      let triple ← ofExcept (Platform.triple options.platform)
      let signatures ← ofExcept (SignatureTable.collect source types options.entry)
      note (.target triple signatures.size)
      let lowered ← functions types signatures options.entry source.functions
      let preamble ← ofExcept (preamble types signatures options (lowered.map (·.name)))
      return { triple, preamble, globals := (← get).pool.globals, functions := lowered }) := by
  unfold generate preamble
  generalize options.preamble = given
  cases given <;> rfl

/-- Generation of code in its steps. -/
theorem generate_eq_ok {source : Tree.Module} {options : CodegenOptions} {generated : Module} :
    (run (generate source types options)).1 = .ok generated ↔ ∃ signatures after,
      Platform.triple options.platform = .ok generated.triple ∧
      SignatureTable.collect source types options.entry = .ok signatures ∧
      functions types signatures options.entry source.functions
        { notes := [.target generated.triple signatures.size] } = .ok generated.functions after ∧
      preamble types signatures options (generated.functions.map (·.name)) =
        .ok generated.preamble ∧
      generated.globals = after.pool.globals := by
  rw [run_eq_ok]
  simp only [generate_eq, ofExcept_bind_eq_ok]
  constructor
  · rintro ⟨_, triple, platform, signatures, collected, result⟩
    obtain ⟨_, _, noted, result⟩ := bind_eq_ok.mp result
    cases noted
    obtain ⟨lowered, after, ran, result⟩ := bind_eq_ok.mp result
    obtain ⟨preamble, derived, result⟩ := ofExcept_bind_eq_ok.mp result
    cases result
    exact ⟨signatures, _, platform, collected, ran, derived, rfl⟩
  · rintro ⟨signatures, after, platform, collected, ran, derived, globals⟩
    obtain ⟨triple, preamble, _, lowered⟩ := generated
    cases globals
    refine ⟨after, triple, platform, signatures, collected, ?_⟩
    refine bind_eq_ok.mpr ⟨(), _, rfl, bind_eq_ok.mpr ⟨lowered, after, ran, ?_⟩⟩
    exact ofExcept_bind_eq_ok.mpr ⟨preamble, derived, rfl⟩

theorem Filled.globals {drafts : List (Draft types signatures entry)} {after : Progress}
    {notes : List Note} (filled : Filled drafts { notes } after)
    (later : Pool.Later types {} after.pool) : after.pool.globals.Perm (constants drafts) := by
  have truthful := (later.truthful (Pool.truthful_empty types)).perm
  rw [filled.numbered, filled.hasBools] at truthful
  exact truthful

/-- What is generated for a module whose functions have drafts. -/
theorem generate_drafts {source : Tree.Module} {options : CodegenOptions} {triple : String}
    {preamble : Preamble} {drafts : List (Draft types signatures options.entry)}
    (platform : Platform.triple options.platform = .ok triple)
    (collected : SignatureTable.collect source types options.entry = .ok signatures)
    (sources : drafts.map (·.source) = source.functions)
    (derived : Codegen.preamble types signatures options
      (((Draft.place 0 drafts).map (·.lowered)).map (·.name)) = .ok preamble) :
    ∃ generated, (run (generate source types options)).1 = .ok generated := by
  obtain ⟨after, ran, _⟩ := functions_eq drafts { notes := [.target triple signatures.size] }
  rw [sources] at ran
  exact ⟨⟨triple, preamble, after.pool.globals, (Draft.place 0 drafts).map (·.lowered)⟩,
    generate_eq_ok.mpr ⟨signatures, after, platform, collected, ran, derived, rfl⟩⟩

/-- A generated module is made of drafts. -/
theorem exists_drafted {source : Tree.Module} {options : CodegenOptions} {generated : Module}
    (accepted : (run (generate source types options)).1 = .ok generated) :
    ∃ signatures drafts, Drafted types options source signatures drafts generated := by
  obtain ⟨signatures, after, platform, collected, ran, derived, globals⟩ :=
    generate_eq_ok.mp accepted
  obtain ⟨drafts, sources⟩ := exists_drafts ((functions_accept _ _).mp ⟨_, _, ran⟩)
  obtain ⟨after', ran', filled⟩ := functions_eq drafts
    { notes := [.target generated.triple signatures.size] }
  rw [sources, ran] at ran'
  obtain ⟨functions, rfl⟩ := EStateM.Result.ok.inj ran'
  exact ⟨signatures, drafts, platform, collected, sources, derived, functions,
    globals ▸ filled.globals (functions_later ran)⟩

end Codegen

end LlvmBackend
