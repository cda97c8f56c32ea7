import LlvmBackend.Proofs.Typing.Steps

/-! # Constants in emitted code, step by step

Which constants of the module single steps write into the code. The known symbols are fixed from the
start: those of the finished module. A step only adds constants, and if all of them are known, it
names no others.
-/

namespace LlvmBackend

open Ir

/-! ## Operands -/

/-- The operands that an instruction defines or reads. -/
def Instr.operands (i : Instr) : List Operand := i.dest.toList ++ i.uses.map TypedOperand.operand

/-- The operands that a terminator reads. -/
def Terminator.operands (terminator : Terminator) : List Operand :=
  terminator.uses.map TypedOperand.operand

section

variable (known : String → Prop)

/-- A symbol as an operand is a known one. -/
def Operand.Linked : Operand → Prop
  | .symbol name => known name
  | .temp _ | .named _ | .bool _ | .int _ => True

def Instr.Linked (i : Instr) : Prop := ∀ operand ∈ i.operands, operand.Linked known

def Terminator.Linked (terminator : Terminator) : Prop :=
  ∀ operand ∈ terminator.operands, operand.Linked known

def Storage.Linked : Storage → Prop
  | .direct operand => operand.Linked known
  | .addressed address => address.Linked known
  | .cached address loaded => address.Linked known ∧ loaded.Linked known

def Value.Linked (value : Value) : Prop := value.storage.Linked known

end

variable {known : String → Prop}

@[simp] theorem Operand.linked_temp (n : Nat) : (Operand.temp n).Linked known := trivial

@[simp] theorem Operand.linked_named (name : String) : (Operand.named name).Linked known := trivial

@[simp] theorem Operand.linked_bool (value : Bool) : (Operand.bool value).Linked known := trivial

@[simp] theorem Operand.linked_int (value : Int64) : (Operand.int value).Linked known := trivial

@[simp] theorem Binding.linked_flag (binding : Binding) : binding.flag.Linked known := by
  cases binding <;> trivial

namespace Instr

variable {dest operand condition : Operand} {type : IrType}

@[simp] theorem linked_alloca : (alloca dest type).Linked known ↔ dest.Linked known := by
  simp [Linked, operands, Instr.dest, uses]

@[simp] theorem linked_load {source : Operand} :
    (load dest type source).Linked known ↔ dest.Linked known ∧ source.Linked known := by
  simp [Linked, operands, Instr.dest, uses]

@[simp] theorem linked_store {value : TypedOperand} :
    (store value dest).Linked known ↔ value.operand.Linked known ∧ dest.Linked known := by
  simp [Linked, operands, Instr.dest, uses]

@[simp] theorem linked_call {dest : Option Operand} {callee : String} {args : List TypedOperand} :
    (call dest type callee args).Linked known ↔
      (∀ operand ∈ dest, operand.Linked known) ∧ ∀ arg ∈ args, arg.operand.Linked known := by
  simp [Linked, operands, Instr.dest, uses, or_imp, forall_and]

@[simp] theorem linked_elementPtr {base : Operand} {indices : List TypedOperand} :
    (elementPtr dest type base indices).Linked known ↔
      dest.Linked known ∧ base.Linked known ∧ ∀ index ∈ indices, index.operand.Linked known := by
  simp [Linked, operands, Instr.dest, uses]

@[simp] theorem linked_select {onTrue onFalse : TypedOperand} :
    (select dest condition onTrue onFalse).Linked known ↔ dest.Linked known ∧
      condition.Linked known ∧ onTrue.operand.Linked known ∧ onFalse.operand.Linked known := by
  simp [Linked, operands, Instr.dest, uses]

@[simp] theorem linked_phi {incoming : List (Operand × BlockId)} :
    (phi dest type incoming).Linked known ↔
      dest.Linked known ∧ ∀ source ∈ incoming, source.1.Linked known := by
  simp [Linked, operands, Instr.dest, uses]

end Instr

namespace Terminator

@[simp] theorem linked_br (target : BlockId) : (br target).Linked known := by
  simp [Linked, operands, uses]

@[simp] theorem linked_condBr {condition : Operand} {onTrue onFalse : BlockId} :
    (condBr condition onTrue onFalse).Linked known ↔ condition.Linked known := by
  simp [Linked, operands, uses]

@[simp] theorem linked_ret {value : Option TypedOperand} :
    (ret value).Linked known ↔ ∀ typed ∈ value, typed.operand.Linked known := by
  simp [Linked, operands, uses]

end Terminator

theorem Value.Linked.address {value : Value} (linked : value.Linked known) {address : Operand}
    (eq : value.address = some address) : address.Linked known := by
  obtain ⟨type, storage, binding⟩ := value
  cases storage with
  | direct operand => cases eq
  | addressed place =>
      cases eq
      exact linked
  | cached place loaded =>
      cases eq
      exact linked.1

theorem Value.Linked.borrowed {value : Value} (linked : value.Linked known) :
    value.borrowed.Linked known := by
  obtain ⟨type, storage, binding⟩ := value
  unfold Value.borrowed
  split
  · cases storage with
    | direct operand | addressed address => exact linked
    | cached address loaded => exact linked.1
  · exact linked

/-! ## States -/

/-- The code, the values of names and the constants of a state name known constants only. -/
structure FunctionState.Linked (types : Registry) (known : String → Prop) (state : FunctionState) :
    Prop where
  instrs : ∀ block ∈ state.builder.blocks, ∀ i ∈ block.instrs, i.Linked known
  ends : ∀ block ∈ state.builder.blocks, ∀ terminator ∈ block.terminator, terminator.Linked known
  slots : ∀ i ∈ state.builder.slots, i.Linked known
  names : ∀ name value, state.scopes.lookup name = some value → value.Linked known
  pool : state.pool.Regular types

/-! ## Steps -/

namespace Lowering

/-- Under a condition, a step from a state keeps to known constants and gives what is said. -/
def Links {α : Type} (types : Registry) (known : String → Prop) (given : Prop) (step : Lowering α)
    (state : FunctionState) (post : α → Prop) : Prop :=
  ∀ value later, step state = .ok value later → state.pool.globals ⊆ later.pool.globals ∧
    ((∀ global ∈ later.pool.globals, known global.symbol) → state.Linked types known → given →
      later.Linked types known ∧ post value)

namespace Links

variable {α β : Type} {types : Registry} {given : Prop} {state : FunctionState} {post : α → Prop}

theorem done {value : α} (h : given → post value) :
    Links types known given (pure value) state post := by
  rintro _ _ ⟨⟩
  exact ⟨List.Subset.refl _, fun _ linked holds => ⟨linked, h holds⟩⟩

theorem fails {error : CodegenError} : Links types known given (throw error) state post := by
  rintro _ _ ⟨⟩

theorem fails_bind {error : CodegenError} {next : α → Lowering β} {post : β → Prop} :
    Links types known given (throw error >>= next) state post := by
  rintro _ _ ⟨⟩

theorem bind {step : Lowering α} {next : α → Lowering β} {post' : β → Prop}
    (first : Links types known given step state post)
    (goesOn : ∀ value later, Links types known (given ∧ post value) (next value) later post') :
    Links types known given (step >>= next) state post' := by
  intro value last result
  obtain ⟨middle, later, ran, result⟩ := exists_of_bind result
  obtain ⟨grows, links⟩ := first middle later ran
  obtain ⟨grows', links'⟩ := goesOn middle later value last result
  refine ⟨List.Subset.trans grows grows', fun all before holds => ?_⟩
  obtain ⟨between, found⟩ := links (fun global mem => all global (grows' mem)) before holds
  exact links' all between ⟨holds, found⟩

theorem mono {step : Lowering α} {given' : Prop} {post' : α → Prop}
    (h : Links types known given step state post) (before : given' → given)
    (after : ∀ value, given' → post value → post' value) :
    Links types known given' step state post' := by
  intro value later result
  obtain ⟨grows, links⟩ := h value later result
  refine ⟨grows, fun all linked holds => ?_⟩
  obtain ⟨there, found⟩ := links all linked (before holds)
  exact ⟨there, after value holds found⟩

theorem under {step : Lowering α} {given' : Prop} (h : Links types known given step state post)
    (before : given' → given) : Links types known given' step state post :=
  h.mono before fun _ _ found => found

/-- A first step of which nothing is needed later. -/
theorem andThen {step : Lowering α} {next : α → Lowering β} {post' : β → Prop}
    (first : Links types known given step state fun _ => True)
    (goesOn : ∀ value later, Links types known given (next value) later post') :
    Links types known given (step >>= next) state post' :=
  first.bind fun value later => (goesOn value later).under And.left

theorem map {step : Lowering α} {change : α → β} {post' : β → Prop}
    (h : Links types known given step state post)
    (le : ∀ value, given → post value → post' (change value)) :
    Links types known given (change <$> step) state post' := by
  rw [map_eq_bind]
  exact h.bind fun value _ => done fun h => le value h.1 h.2

/-- A step that leaves the code, the constants and the names alone. -/
theorem quiet {step : Lowering α}
    (same : ∀ value later, step state = .ok value later →
      later.builder = state.builder ∧ later.pool = state.pool ∧ later.scopes = state.scopes)
    (found : ∀ value later, step state = .ok value later → given → post value) :
    Links types known given step state post := by
  intro value later result
  obtain ⟨builder, pool, scopes⟩ := same value later result
  refine ⟨pool ▸ List.Subset.refl _, fun _ linked holds => ⟨?_, found value later result holds⟩⟩
  constructor
  · simpa [builder] using linked.instrs
  · simpa [builder] using linked.ends
  · simpa [builder] using linked.slots
  · simpa [scopes] using linked.names
  · simpa [pool] using linked.pool

end Links

variable {types : Registry} {given : Prop} {state : FunctionState}

theorem links_tempNumber : Links types known given tempNumber state fun _ => True := by
  refine .quiet ?_ fun _ _ _ _ => trivial
  rintro _ _ ⟨⟩
  exact ⟨rfl, rfl, rfl⟩

theorem links_temp : Links types known given temp state fun dest => dest.Linked known :=
  links_tempNumber.bind fun _ _ => .done fun _ => trivial

theorem links_note (message : Note) :
    Links types known given (note message) state fun _ => True := by
  refine .quiet ?_ fun _ _ _ _ => trivial
  rintro _ _ ⟨⟩
  exact ⟨rfl, rfl, rfl⟩

theorem links_get : Links types known given (get : Lowering FunctionState) state fun _ => True := by
  refine .quiet ?_ fun _ _ _ _ => trivial
  rintro _ _ ⟨⟩
  exact ⟨rfl, rfl, rfl⟩

theorem links_functionName : Links types known given functionName state fun _ => True :=
  links_get.bind fun _ _ => .done fun _ => trivial

theorem links_isTerminated : Links types known given isTerminated state fun _ => True :=
  links_get.bind fun _ _ => .done fun _ => trivial

theorem links_currentBlock : Links types known given currentBlock state fun _ => True :=
  links_get.bind fun _ _ => .done fun _ => trivial

theorem links_ofExcept {α : Type} (check : Except CodegenError α) :
    Links types known given (ofExcept check) state fun _ => True := by
  cases check with
  | ok value => exact .done fun _ => trivial
  | error error => exact .fails

/-- The name of the function is only asked for to fail. -/
theorem links_refuse {α : Type} {error : String → CodegenError} {post : α → Prop} :
    Links types known given (functionName >>= fun name => throw (error name)) state post :=
  links_functionName.bind fun _ _ => .fails

theorem links_refuse_bind {α β : Type} {error : String → CodegenError} {next : α → Lowering β}
    {post : β → Prop} :
    Links types known given ((functionName >>= fun name => throw (error name)) >>= next) state
      post := by
  rintro _ _ ⟨⟩

theorem links_required (value : Option Value) (linked : given → ∀ found ∈ value, found.Linked known) :
    Links types known given (required value) state fun found => found.Linked known := by
  cases value with
  | none => exact links_refuse
  | some value => exact .done fun h => linked h value rfl

theorem links_lookup (name : String) :
    Links types known given (lookup name) state fun value => value.Linked known := by
  intro value later result
  cases found : state.scopes.lookup name with
  | none =>
      simp only [lookup, get_bind, found] at result
      cases result
  | some value' =>
      obtain ⟨rfl, rfl⟩ : value' = value ∧ state = later := by
        simpa [lookup, get_bind, found, pure, EStateM.pure] using result
      exact ⟨List.Subset.refl _, fun _ linked _ => ⟨linked, linked.names name value' found⟩⟩

theorem links_define (name : String) (value : Value) (h : given → value.Linked known) :
    Links types known given (define name value) state fun _ => True := by
  rintro _ _ ⟨⟩
  refine ⟨List.Subset.refl _, fun _ linked holds =>
    ⟨⟨linked.instrs, linked.ends, linked.slots, ?_, linked.pool⟩, trivial⟩⟩
  intro asked found eq
  simp only [Scopes.lookup_define] at eq
  split at eq
  · cases eq
    exact h holds
  · exact linked.names asked found eq

/-- A literal is a constant that is there from then on. -/
theorem links_literal (add : Pool → Value × Pool) (added : ∀ pool, Pool.Added types pool (add pool)) :
    Links types known given (literal add) state fun value => value.Linked known := by
  rintro _ _ ⟨⟩
  have added := added state.pool
  refine ⟨added.kept, fun all linked _ => ⟨⟨linked.instrs, linked.ends, linked.slots, linked.names,
    added.regular linked.pool⟩, ?_⟩⟩
  obtain ⟨type, global, mem, _, stands⟩ := added.there linked.pool
  rw [stands]
  exact all global mem

/-! ## Code -/

theorem links_emit (instr : Instr) (h : given → instr.Linked known) :
    Links types known given (emit instr) state fun _ => True := by
  intro _ later result
  rw [emit_eq] at result
  unfold Builder.emit Builder.modifyOpen at result
  split at result
  · next builder eq =>
      split at eq
      · cases eq
      · cases eq
        cases result
        refine ⟨List.Subset.refl _, fun _ linked holds =>
          ⟨⟨?_, ?_, linked.slots, linked.names, linked.pool⟩, trivial⟩⟩
        · intro block mem i inside
          rcases mem_modify mem with old | ⟨old, there, rfl⟩
          · exact linked.instrs block old i inside
          · rcases List.mem_append.mp inside with before | here
            · exact linked.instrs old (List.mem_of_getElem? there) i before
            · exact List.mem_singleton.mp here ▸ h holds
        · intro block mem
          rcases mem_modify mem with old | ⟨old, there, rfl⟩
          · exact linked.ends block old
          · exact linked.ends old (List.mem_of_getElem? there)
  · cases result

theorem links_terminate (terminator : Terminator) (h : given → terminator.Linked known) :
    Links types known given (terminate terminator) state fun _ => True := by
  intro _ later result
  rw [terminate_eq] at result
  unfold Builder.terminate Builder.modifyOpen at result
  split at result
  · next builder eq =>
      split at eq
      · cases eq
      · cases eq
        cases result
        refine ⟨List.Subset.refl _, fun _ linked holds =>
          ⟨⟨?_, ?_, linked.slots, linked.names, linked.pool⟩, trivial⟩⟩
        · intro block mem
          rcases mem_modify mem with old | ⟨old, there, rfl⟩
          · exact linked.instrs block old
          · exact linked.instrs old (List.mem_of_getElem? there)
        · intro block mem terminator' eq
          rcases mem_modify mem with old | ⟨old, there, rfl⟩
          · exact linked.ends block old terminator' eq
          · cases eq
            exact h holds
  · cases result

theorem links_br (target : BlockId) :
    Links types known given (terminate (.br target)) state fun _ => True :=
  links_terminate _ fun _ => Terminator.linked_br target

theorem links_branchIfOpen (target : BlockId) :
    Links types known given (branchIfOpen target) state fun _ => True := by
  refine links_isTerminated.andThen fun ended _ => ?_
  cases ended with
  | false => exact links_br target
  | true => exact .done fun _ => trivial

theorem links_newBlock (hint : String) :
    Links types known given (newBlock hint) state fun _ => True := by
  rintro _ _ ⟨⟩
  refine ⟨List.Subset.refl _, fun _ linked _ =>
    ⟨⟨?_, ?_, linked.slots, linked.names, linked.pool⟩, trivial⟩⟩
  · intro block mem i inside
    rcases List.mem_append.mp mem with old | new
    · exact linked.instrs block old i inside
    · rw [List.mem_singleton.mp new] at inside
      cases inside
  · intro block mem terminator eq
    rcases List.mem_append.mp mem with old | new
    · exact linked.ends block old terminator eq
    · rw [List.mem_singleton.mp new] at eq
      cases eq

theorem links_switchTo (block : BlockId) :
    Links types known given (switchTo block) state fun _ => True := by
  rintro _ _ ⟨⟩
  exact ⟨List.Subset.refl _, fun _ linked _ => ⟨⟨linked.instrs, linked.ends, linked.slots,
    linked.names, linked.pool⟩, trivial⟩⟩

end Lowering

end LlvmBackend
