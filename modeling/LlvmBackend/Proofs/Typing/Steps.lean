import LlvmBackend.Proofs.Ir.Typing
import LlvmBackend.Proofs.Lowering.Steps
import LlvmBackend.Proofs.Pool
import LlvmBackend.Proofs.Scopes

/-! # Types of what single steps use

What operands have is fixed from the start: the types that all definitions of the finished function
state. A step only adds definitions. Where all of them are among the fixed ones, what it uses has the
types at which it is used.
-/

namespace LlvmBackend

open Ir

/-! ## Values -/

section Values

variable (types : Registry) (has : Operand → IrType → Prop)

/-- An instruction reads what has the right types and defines a register. -/
def Instr.Fits (i : Instr) : Prop :=
  (∀ use ∈ i.uses, use.Fits has) ∧ ∀ dest ∈ i.dest, dest.isRegister

/-- A terminator reads what has the right types and returns what it should. -/
def Terminator.Fits (returned : Option IrType) (terminator : Terminator) : Prop :=
  (∀ use ∈ terminator.uses, use.Fits has) ∧ ∀ type ∈ terminator.returned?, type = returned

/-- The flag of an owner is a truth value. -/
def Binding.Fits (binding : Binding) : Prop := TypedOperand.Fits has ⟨.i1, binding.flag⟩

/-- A place holds values of a type. -/
def Storage.Fits (type : IrType) : Storage → Prop
  | .direct operand => TypedOperand.Fits has ⟨type, operand⟩
  | .addressed address => TypedOperand.Fits has ⟨type.ptr, address⟩
  | .cached address loaded =>
    TypedOperand.Fits has ⟨type.ptr, address⟩ ∧ TypedOperand.Fits has ⟨type, loaded⟩

/-- A value has its type in the emitted code. -/
structure Value.Fits (value : Value) : Prop where
  storage : value.storage.Fits has ⟨types.ir value.type⟩
  binding : value.binding.Fits has

end Values

variable {types : Registry} {has : Operand → IrType → Prop} {value : Value}

@[simp] theorem Binding.fits_temporary : Binding.temporary.Fits has := rfl

@[simp] theorem Binding.fits_stable : Binding.stable.Fits has := rfl

@[simp] theorem Binding.fits_constant : Binding.constant.Fits has := rfl

theorem Storage.Fits.address {type : IrType} {storage : Storage} (fits : storage.Fits has type)
    {address : Operand} (eq : storage.address = some address) :
    TypedOperand.Fits has ⟨type.ptr, address⟩ := by
  cases storage with
  | direct operand => cases eq
  | addressed place =>
      cases eq
      exact fits
  | cached place loaded =>
      cases eq
      exact fits.1

theorem Value.Fits.borrowed (fits : value.Fits types has) : value.borrowed.Fits types has := by
  obtain ⟨type, storage, binding⟩ := value
  unfold Value.borrowed
  split
  · refine ⟨?_, rfl⟩
    cases storage with
    | direct operand | addressed address => exact fits.storage
    | cached address loaded => exact fits.storage.1
  · exact fits

/-! ## States -/

namespace Outcome

/-- The type of what control leaves a function with. -/
def returned : Outcome → Option IrType
  | .status => some .i32
  | .result _ => none

end Outcome

namespace FunctionState

/-- What instructions, slots of variables and constants define. -/
def definitions (state : FunctionState) : List TypedOperand :=
  (state.builder.blocks.flatMap Block.instrs ++ state.builder.slots).filterMap Instr.defined? ++
    state.pool.globals.map fun global => ⟨global.type.ptr, .symbol global.symbol⟩

/-- A later state has all definitions and blocks of the earlier one. -/
structure Grows (state later : FunctionState) : Prop where
  definitions : state.definitions ⊆ later.definitions
  globals : state.pool.globals ⊆ later.pool.globals
  size : state.builder.blocks.length ≤ later.builder.blocks.length
  params : later.builder.params = state.builder.params

theorem Grows.refl (state : FunctionState) : state.Grows state :=
  ⟨List.Subset.refl _, List.Subset.refl _, Nat.le_refl _, rfl⟩

theorem Grows.trans {state later last : FunctionState} (h₁ : state.Grows later)
    (h₂ : later.Grows last) : state.Grows last :=
  ⟨List.Subset.trans h₁.definitions h₂.definitions, List.Subset.trans h₁.globals h₂.globals,
    Nat.le_trans h₁.size h₂.size,
    h₂.params.trans h₁.params⟩

/-- All definitions of a state state types that operands have. -/
def Covered (has : Operand → IrType → Prop) (state : FunctionState) : Prop :=
  ∀ defined ∈ state.definitions, has defined.operand defined.type

theorem Covered.of_grows {state later : FunctionState} (covered : later.Covered has)
    (grows : state.Grows later) : state.Covered has :=
  fun defined mem => covered defined (grows.definitions mem)

/-- What stands in a state has the right types, and so have the values of names. -/
structure Fits (env : Surroundings) (has : Operand → IrType → Prop) (state : FunctionState) :
    Prop where
  current : state.builder.current < state.builder.blocks.length
  instrs : ∀ block ∈ state.builder.blocks, ∀ i ∈ block.instrs, i.Fits has
  ends : ∀ block ∈ state.builder.blocks, ∀ terminator ∈ block.terminator,
    terminator.Fits has env.outcome.returned
  slots : ∀ i ∈ state.builder.slots, i.Fits has
  names : ∀ name value, state.scopes.lookup name = some value → value.Fits env.types has
  pool : state.pool.Regular env.types

end FunctionState

/-! ## Steps -/

namespace Lowering

open FunctionState

/-- Under a condition, a step from a state keeps types right and gives what is said. -/
def Typed {α : Type} (env : Surroundings) (has : Operand → IrType → Prop) (given : Prop)
    (step : Lowering α) (state : FunctionState) (post : α → FunctionState → Prop) : Prop :=
  ∀ value later, step state = .ok value later → state.Grows later ∧
    (later.Covered has → state.Fits env has → given → later.Fits env has ∧ post value later)

namespace Typed

variable {α β : Type} {env : Surroundings} {given : Prop} {state : FunctionState}
  {post : α → FunctionState → Prop}

theorem done {value : α} (h : given → post value state) :
    Typed env has given (pure value) state post := by
  rintro _ _ ⟨⟩
  exact ⟨.refl _, fun _ fits holds => ⟨fits, h holds⟩⟩

theorem fails {error : CodegenError} : Typed env has given (throw error) state post := by
  rintro _ _ ⟨⟩

theorem fails_bind {error : CodegenError} {next : α → Lowering β}
    {post : β → FunctionState → Prop} :
    Typed env has given (throw error >>= next) state post := by
  rintro _ _ ⟨⟩

theorem bind {step : Lowering α} {next : α → Lowering β} {post' : β → FunctionState → Prop}
    (first : Typed env has given step state post)
    (goesOn : ∀ value later, state.Grows later →
      Typed env has (given ∧ post value later) (next value) later post') :
    Typed env has given (step >>= next) state post' := by
  intro value last result
  obtain ⟨middle, later, ran, result⟩ := exists_of_bind result
  obtain ⟨grows, fits⟩ := first middle later ran
  obtain ⟨grows', fits'⟩ := goesOn middle later grows value last result
  refine ⟨grows.trans grows', fun covered before holds => ?_⟩
  obtain ⟨between, found⟩ := fits (covered.of_grows grows') before holds
  exact fits' covered between ⟨holds, found⟩

theorem mono {step : Lowering α} {given' : Prop} {post' : α → FunctionState → Prop}
    (h : Typed env has given step state post) (before : given' → given)
    (after : ∀ value later, given' → post value later → post' value later) :
    Typed env has given' step state post' := by
  intro value later result
  obtain ⟨grows, fits⟩ := h value later result
  refine ⟨grows, fun covered here holds => ?_⟩
  obtain ⟨there, found⟩ := fits covered here (before holds)
  exact ⟨there, after value later holds found⟩

theorem under {step : Lowering α} {given' : Prop} (h : Typed env has given step state post)
    (before : given' → given) : Typed env has given' step state post :=
  h.mono before fun _ _ _ found => found

/-- A first step of which nothing is needed later. -/
theorem andThen {step : Lowering α} {next : α → Lowering β} {post' : β → FunctionState → Prop}
    (first : Typed env has given step state fun _ _ => True)
    (goesOn : ∀ value later, state.Grows later → Typed env has given (next value) later post') :
    Typed env has given (step >>= next) state post' :=
  first.bind fun value later grows => (goesOn value later grows).under And.left

theorem map {step : Lowering α} {change : α → β} {post' : β → FunctionState → Prop}
    (h : Typed env has given step state post)
    (le : ∀ value later, given → post value later → post' (change value) later) :
    Typed env has given (change <$> step) state post' := by
  rw [map_eq_bind]
  exact h.bind fun value later _ => done fun h => le value later h.1 h.2

/-- A step that leaves the code, the constants and the names alone. -/
theorem quiet {step : Lowering α}
    (same : ∀ value later, step state = .ok value later →
      later.builder = state.builder ∧ later.pool = state.pool ∧ later.scopes = state.scopes)
    (found : ∀ value later, step state = .ok value later → given → post value later) :
    Typed env has given step state post := by
  intro value later result
  obtain ⟨builder, pool, scopes⟩ := same value later result
  refine ⟨⟨?_, ?_, ?_, ?_⟩, fun _ fits holds => ⟨?_, found value later result holds⟩⟩
  · simp [definitions, builder, pool]
  · simp [pool]
  · simp [builder]
  · rw [builder]
  · constructor
    · simpa [builder] using fits.current
    · simpa [builder] using fits.instrs
    · simpa [builder] using fits.ends
    · simpa [builder] using fits.slots
    · simpa [scopes] using fits.names
    · simpa [pool] using fits.pool

end Typed

variable {env : Surroundings} {given : Prop} {state : FunctionState}

theorem typed_tempNumber :
    Typed env has given tempNumber state fun _ _ => True := by
  refine .quiet ?_ fun _ _ _ _ => trivial
  rintro _ _ ⟨⟩
  exact ⟨rfl, rfl, rfl⟩

theorem typed_temp : Typed env has given temp state fun dest _ => dest.isRegister :=
  typed_tempNumber.bind fun _ _ _ => .done fun _ => rfl

theorem typed_note (message : Note) : Typed env has given (note message) state fun _ _ => True := by
  refine .quiet ?_ fun _ _ _ _ => trivial
  rintro _ _ ⟨⟩
  exact ⟨rfl, rfl, rfl⟩

theorem typed_get : Typed env has given (get : Lowering FunctionState) state fun found later =>
    found = state ∧ later = state := by
  refine .quiet ?_ ?_
  · rintro _ _ ⟨⟩
    exact ⟨rfl, rfl, rfl⟩
  · rintro _ _ ⟨⟩ _
    exact ⟨rfl, rfl⟩

theorem typed_functionName : Typed env has given functionName state fun _ _ => True :=
  typed_get.bind fun _ _ _ => .done fun _ => trivial

theorem typed_isTerminated : Typed env has given isTerminated state fun _ _ => True :=
  typed_get.bind fun _ _ _ => .done fun _ => trivial

theorem typed_currentBlock : Typed env has given currentBlock state fun _ _ => True :=
  typed_get.bind fun _ _ _ => .done fun _ => trivial

theorem typed_ofExcept {α : Type} (check : Except CodegenError α) :
    Typed env has given (ofExcept check) state fun value _ => check = .ok value := by
  cases check with
  | ok value => exact .done fun _ => rfl
  | error error => exact .fails

/-- The name of the function is only asked for to fail. -/
theorem typed_refuse {α : Type} {error : String → CodegenError}
    {post : α → FunctionState → Prop} :
    Typed env has given (functionName >>= fun name => throw (error name)) state post :=
  typed_functionName.bind fun _ _ _ => .fails

theorem typed_refuse_bind {α β : Type} {error : String → CodegenError} {next : α → Lowering β}
    {post : β → FunctionState → Prop} :
    Typed env has given ((functionName >>= fun name => throw (error name)) >>= next) state post := by
  rintro _ _ ⟨⟩

theorem typed_required (value : Option Value) :
    Typed env has given (required value) state fun found _ => value = some found := by
  cases value with
  | none => exact typed_refuse
  | some value => exact .done fun _ => rfl

theorem typed_lookup (name : String) :
    Typed env has given (lookup name) state fun value _ => value.Fits env.types has := by
  intro value later result
  cases found : state.scopes.lookup name with
  | none =>
      simp only [lookup, get_bind, found] at result
      cases result
  | some value' =>
      obtain ⟨rfl, rfl⟩ : value' = value ∧ state = later := by
        simpa [lookup, get_bind, found, pure, EStateM.pure] using result
      exact ⟨.refl _, fun _ fits _ => ⟨fits, fits.names name value' found⟩⟩

theorem typed_define (name : String) (value : Value) (h : given → value.Fits env.types has) :
    Typed env has given (define name value) state fun _ _ => True := by
  rintro _ _ ⟨⟩
  refine ⟨⟨List.Subset.refl _, List.Subset.refl _, Nat.le_refl _, rfl⟩, fun _ fits holds =>
    ⟨⟨fits.current, fits.instrs, fits.ends, fits.slots, ?_, fits.pool⟩, trivial⟩⟩
  intro asked found eq
  simp only [Scopes.lookup_define] at eq
  split at eq
  · cases eq
    exact h holds
  · exact fits.names asked found eq

/-- A literal has the type of its constant. -/
theorem typed_literal (add : Pool → Value × Pool)
    (added : ∀ pool, Pool.Added env.types pool (add pool)) :
    Typed env has given (literal add) state fun value _ => value.Fits env.types has := by
  rintro _ _ ⟨⟩
  have added := added state.pool
  refine ⟨⟨?_, added.kept, Nat.le_refl _, rfl⟩, fun covered fits _ => ⟨⟨fits.current, fits.instrs,
    fits.ends, fits.slots, fits.names, added.regular fits.pool⟩, ?_⟩⟩
  · intro defined mem
    refine List.mem_append.mpr ((List.mem_append.mp mem).imp_right fun mem => ?_)
    exact List.map_subset _ added.kept mem
  · obtain ⟨type, global, mem, eq, stands⟩ := added.there fits.pool
    rw [stands]
    refine ⟨?_, rfl⟩
    have defined := covered ⟨global.type.ptr, .symbol global.symbol⟩
      (List.mem_append_right _ (List.mem_map.mpr ⟨global, mem, rfl⟩))
    rw [eq] at defined
    exact defined

/-! ## Code -/

theorem mem_modify {α : Type} {change : α → α} {n : Nat} {values : List α} {value : α}
    (mem : value ∈ values.modify n change) :
    value ∈ values ∨ ∃ old, values[n]? = some old ∧ value = change old := by
  obtain ⟨id, eq⟩ := List.mem_iff_getElem?.mp mem
  rw [List.getElem?_modify] at eq
  obtain ⟨old, there, rfl⟩ := Option.map_eq_some_iff.mp eq
  split
  · next here => exact .inr ⟨old, here ▸ there, rfl⟩
  · exact .inl (List.mem_of_getElem? there)

theorem mem_modify_of_ne {α : Type} {change : α → α} {n id : Nat} {values : List α} {value : α}
    (there : values[id]? = some value) :
    (if n = id then change value else value) ∈ values.modify n change := by
  refine List.mem_of_getElem? (i := id) ?_
  rw [List.getElem?_modify, there]
  rfl

/-- What is defined stays if instructions only are added to a block. -/
theorem definitions_modify {change : Block → Block} (kept : ∀ block : Block,
      block.instrs ⊆ (change block).instrs) :
    state.definitions ⊆ FunctionState.definitions { state with builder :=
      { state.builder with blocks := state.builder.blocks.modify state.builder.current change } } := by
  intro defined mem
  refine List.mem_append.mpr ((List.mem_append.mp mem).imp_left fun mem => ?_)
  obtain ⟨i, mem, eq⟩ := List.mem_filterMap.mp mem
  refine List.mem_filterMap.mpr ⟨i, ?_, eq⟩
  refine List.mem_append.mpr ((List.mem_append.mp mem).imp_left fun mem => ?_)
  obtain ⟨block, there, inside⟩ := List.mem_flatMap.mp mem
  obtain ⟨id, at_id⟩ := List.mem_iff_getElem?.mp there
  refine List.mem_flatMap.mpr ⟨_, mem_modify_of_ne (n := state.builder.current) at_id, ?_⟩
  split
  · exact kept block inside
  · exact inside

/-- An instruction is emitted if it reads what has the right types. What it defines has the type
    that it states. -/
theorem typed_emit (instr : Instr) (h : given → instr.Fits has) :
    Typed env has given (emit instr) state fun _ _ =>
      ∀ defined ∈ instr.defined?, has defined.operand defined.type := by
  intro _ later result
  rw [emit_eq] at result
  unfold Builder.emit Builder.modifyOpen at result
  split at result
  · next builder eq =>
      split at eq
      · cases eq
      · cases eq
        cases result
        refine ⟨⟨definitions_modify fun block => List.subset_append_left _ _,
          List.Subset.refl _, by simp, rfl⟩, fun covered fits holds => ⟨⟨?_, ?_, ?_, fits.slots,
            fits.names, fits.pool⟩, ?_⟩⟩
        · simpa using fits.current
        · intro block mem i inside
          rcases mem_modify mem with old | ⟨old, there, rfl⟩
          · exact fits.instrs block old i inside
          · rcases List.mem_append.mp inside with before | here
            · exact fits.instrs old (List.mem_of_getElem? there) i before
            · exact List.mem_singleton.mp here ▸ h holds
        · intro block mem
          rcases mem_modify mem with old | ⟨old, there, rfl⟩
          · exact fits.ends block old
          · exact fits.ends old (List.mem_of_getElem? there)
        · intro defined eq
          refine covered defined (List.mem_append_left _ (List.mem_filterMap.mpr ⟨instr, ?_, eq⟩))
          refine List.mem_append_left _ (List.mem_flatMap.mpr
            ⟨_, mem_modify_of_ne (List.getElem?_eq_getElem fits.current), ?_⟩)
          simp
  · cases result

theorem typed_terminate (terminator : Terminator)
    (h : given → terminator.Fits has env.outcome.returned) :
    Typed env has given (terminate terminator) state fun _ _ => True := by
  intro _ later result
  rw [terminate_eq] at result
  unfold Builder.terminate Builder.modifyOpen at result
  split at result
  · next builder eq =>
      split at eq
      · cases eq
      · cases eq
        cases result
        refine ⟨⟨definitions_modify fun block => List.Subset.refl _, List.Subset.refl _, by simp,
          rfl⟩, fun covered fits holds => ⟨⟨?_, ?_, ?_, fits.slots, fits.names, fits.pool⟩,
            trivial⟩⟩
        · simpa using fits.current
        · intro block mem
          rcases mem_modify mem with old | ⟨old, there, rfl⟩
          · exact fits.instrs block old
          · exact fits.instrs old (List.mem_of_getElem? there)
        · intro block mem terminator' eq
          rcases mem_modify mem with old | ⟨old, there, rfl⟩
          · exact fits.ends block old terminator' eq
          · cases eq
            exact h holds
  · cases result

theorem fits_br (target : BlockId) (returned : Option IrType) :
    (Terminator.br target).Fits has returned := by
  simp [Terminator.Fits, Terminator.uses, Terminator.returned?]

theorem fits_condBr {condition : Operand} (fits : TypedOperand.Fits has ⟨.i1, condition⟩)
    (onTrue onFalse : BlockId) (returned : Option IrType) :
    (Terminator.condBr condition onTrue onFalse).Fits has returned := by
  simpa [Terminator.Fits, Terminator.uses, Terminator.returned?] using fits

theorem typed_br (target : BlockId) :
    Typed env has given (terminate (.br target)) state fun _ _ => True :=
  typed_terminate _ fun _ => fits_br target _

theorem typed_branchIfOpen (target : BlockId) :
    Typed env has given (branchIfOpen target) state fun _ _ => True := by
  refine typed_isTerminated.bind fun ended _ _ => ?_
  cases ended with
  | false => exact typed_br target
  | true => exact .done fun _ => trivial

theorem typed_newBlock (hint : String) :
    Typed env has given (newBlock hint) state fun id later =>
      id < later.builder.blocks.length := by
  rintro _ _ ⟨⟩
  refine ⟨⟨?_, List.Subset.refl _, by simp, rfl⟩, fun _ fits _ => ⟨⟨?_, ?_,
    ?_, fits.slots, fits.names, fits.pool⟩, ?_⟩⟩
  · simp [definitions]
  · simpa [Builder.createBlock] using Nat.lt_succ_of_lt fits.current
  · intro block mem i inside
    rcases List.mem_append.mp mem with old | new
    · exact fits.instrs block old i inside
    · rw [List.mem_singleton.mp new] at inside
      cases inside
  · intro block mem terminator eq
    rcases List.mem_append.mp mem with old | new
    · exact fits.ends block old terminator eq
    · rw [List.mem_singleton.mp new] at eq
      cases eq
  · simp

theorem typed_switchTo (block : BlockId) (lt : given → block < state.builder.blocks.length) :
    Typed env has given (switchTo block) state fun _ _ => True := by
  rintro _ _ ⟨⟩
  refine ⟨⟨?_, List.Subset.refl _, Nat.le_refl _, rfl⟩, fun _ fits holds => ⟨⟨lt holds,
    fits.instrs, fits.ends, fits.slots, fits.names, fits.pool⟩, trivial⟩⟩
  simp [definitions, Builder.switchTo]

end Lowering

end LlvmBackend
