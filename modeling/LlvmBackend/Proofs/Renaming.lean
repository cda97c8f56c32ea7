import LlvmBackend.Ir.Builder
import LlvmBackend.Proofs.Scopes
import LlvmBackend.Value

/-! # Renaming symbols

Code, constants and values with other symbols of the module. What a builder does commutes with a
change of symbols, and so do the look-up and the binding of names.
-/

namespace LlvmBackend

open Ir

/-! ## Code -/

section Code

variable (change : String → String)

def Operand.rename : Operand → Operand
  | .symbol name => .symbol (change name)
  | operand => operand

def TypedOperand.rename (typed : TypedOperand) : TypedOperand :=
  { typed with operand := typed.operand.rename change }

def Instr.rename : Instr → Instr
  | .alloca dest type => .alloca (dest.rename change) type
  | .load dest type source => .load (dest.rename change) type (source.rename change)
  | .store value dest => .store (value.rename change) (dest.rename change)
  | .call dest returns callee args =>
    .call (dest.map (·.rename change)) returns callee (args.map (·.rename change))
  | .elementPtr dest type base indices =>
    .elementPtr (dest.rename change) type (base.rename change) (indices.map (·.rename change))
  | .select dest condition onTrue onFalse =>
    .select (dest.rename change) (condition.rename change) (onTrue.rename change)
      (onFalse.rename change)
  | .phi dest type incoming =>
    .phi (dest.rename change) type (incoming.map fun source => (source.1.rename change, source.2))

def Terminator.rename : Terminator → Terminator
  | .br target => .br target
  | .condBr condition onTrue onFalse => .condBr (condition.rename change) onTrue onFalse
  | .ret value => .ret (value.map (·.rename change))

def Block.rename (block : Block) : Block :=
  { block with
    instrs := block.instrs.map (·.rename change)
    terminator := block.terminator.map (·.rename change) }

namespace Ir

def Function.rename (function : Function) : Function :=
  { function with blocks := function.blocks.map (·.rename change) }

def Init.rename : Init → Init
  | .header length data => .header length (change data)
  | init => init

def Global.rename (global : Global) : Global :=
  { global with symbol := change global.symbol, init := global.init.rename change }

def Builder.rename (builder : Builder) : Builder :=
  { builder with
    blocks := builder.blocks.map (·.rename change)
    slots := builder.slots.map (·.rename change) }

end Ir

end Code

/-! ## Values -/

section Values

variable (change : String → String)

def Storage.rename : Storage → Storage
  | .direct operand => .direct (operand.rename change)
  | .addressed address => .addressed (address.rename change)
  | .cached address loaded => .cached (address.rename change) (loaded.rename change)

def Value.rename (value : Value) : Value :=
  { value with storage := value.storage.rename change }

end Values

variable {change : String → String}

@[simp] theorem Operand.rename_temp (n : Nat) : (Operand.temp n).rename change = .temp n := rfl

@[simp] theorem Operand.rename_named (name : String) :
    (Operand.named name).rename change = .named name := rfl

@[simp] theorem Operand.rename_bool (value : Bool) :
    (Operand.bool value).rename change = .bool value := rfl

@[simp] theorem Operand.rename_int (value : Int64) :
    (Operand.int value).rename change = .int value := rfl

@[simp] theorem Binding.rename_flag (binding : Binding) :
    binding.flag.rename change = binding.flag := by
  cases binding <;> rfl

theorem Operand.rename_injective (injective : Function.Injective change) :
    Function.Injective (Operand.rename change) := by
  intro first second eq
  cases first <;> cases second <;> simp_all [Operand.rename, injective.eq_iff]

@[simp] theorem Value.rename_type (value : Value) : (value.rename change).type = value.type := rfl

@[simp] theorem Value.rename_binding (value : Value) :
    (value.rename change).binding = value.binding := rfl

@[simp] theorem Value.rename_address (value : Value) :
    (value.rename change).address = value.address.map (·.rename change) := by
  obtain ⟨type, storage, binding⟩ := value
  cases storage <;> rfl

theorem Value.rename_borrowed (value : Value) :
    (value.rename change).borrowed = value.borrowed.rename change := by
  obtain ⟨type, storage, binding⟩ := value
  unfold borrowed
  cases owns : binding.owns with
  | true => cases storage <;> simp [rename, owns, Storage.withoutCache, Storage.rename]
  | false => simp [rename, owns]

/-! ## Renaming twice -/

section Twice

variable {again : String → String}

theorem Operand.rename_rename (operand : Operand) :
    (operand.rename change).rename again = operand.rename (again ∘ change) := by
  cases operand <;> rfl

theorem TypedOperand.rename_rename (typed : TypedOperand) :
    (typed.rename change).rename again = typed.rename (again ∘ change) := by
  simp [rename, Operand.rename_rename]

theorem Instr.rename_rename (instr : Instr) :
    (instr.rename change).rename again = instr.rename (again ∘ change) := by
  cases instr <;>
    simp [rename, Operand.rename_rename, TypedOperand.rename_rename, Function.comp_def]

theorem Terminator.rename_rename (terminator : Terminator) :
    (terminator.rename change).rename again = terminator.rename (again ∘ change) := by
  cases terminator <;>
    simp [rename, Operand.rename_rename, TypedOperand.rename_rename, Function.comp_def]

theorem Block.rename_rename (block : Block) :
    (block.rename change).rename again = block.rename (again ∘ change) := by
  simp [rename, Instr.rename_rename, Terminator.rename_rename, Function.comp_def]

theorem Ir.Function.rename_rename (function : Ir.Function) :
    (function.rename change).rename again = function.rename (again ∘ change) := by
  simp [rename, Block.rename_rename, Function.comp_def]

theorem Ir.Global.rename_rename (global : Global) :
    (global.rename change).rename again = global.rename (again ∘ change) := by
  obtain ⟨symbol, type, init⟩ := global
  cases init <;> rfl

end Twice

theorem Ir.Function.block_rename (function : Ir.Function) (id : BlockId) :
    (function.rename change).block id = (function.block id).rename change := by
  simp only [Function.block, rename, List.getElem?_map]
  cases function.blocks[id]? <;> rfl

theorem Ir.Function.instrCount_rename (function : Ir.Function) :
    (function.rename change).instrCount = function.instrCount := by
  simp only [instrCount, orderedBlocks, List.length_flatMap, List.map_map, Function.comp_def,
    block_rename, Block.rename, List.length_map]
  rfl

/-! ## Building -/

theorem List.map_modify {α β : Type} {f : α → β} {modify : α → α} {modify' : β → β}
    (same : ∀ item, modify' (f item) = f (modify item)) (items : List α) (i : Nat) :
    (items.map f).modify i modify' = (items.modify i modify).map f := by
  refine List.ext_getElem? fun id => ?_
  simp only [List.getElem?_modify, List.getElem?_map, Option.map_eq_map]
  cases items[id]? with
  | none => rfl
  | some item => by_cases here : i = id <;> simp [here, same]

namespace Ir.Builder

variable (builder : Builder)

theorem rename_createBlock (label hint : String) :
    (builder.rename change).createBlock label hint =
      ((builder.createBlock label hint).1, (builder.createBlock label hint).2.rename change) := by
  simp [createBlock, rename, Block.rename]

theorem rename_block : (builder.rename change).block = builder.block.rename change := by
  simp only [block, rename, List.getElem?_map]
  cases builder.blocks[builder.current]? <;> rfl

@[simp] theorem rename_isTerminated :
    (builder.rename change).isTerminated = builder.isTerminated := by
  simp [isTerminated, rename_block, Block.rename]

theorem rename_hoist (instr : Instr) :
    (builder.rename change).hoist (instr.rename change) = (builder.hoist instr).rename change := by
  simp [hoist, rename]

/-- A change of the block in use is made with the other symbols too. -/
theorem rename_modifyOpen {modify modify' : Block → Block} {later : Builder}
    (same : ∀ block : Block, modify' (block.rename change) = (modify block).rename change)
    (result : builder.modifyOpen modify = .ok later) :
    (builder.rename change).modifyOpen modify' = .ok (later.rename change) := by
  unfold modifyOpen at result ⊢
  rw [rename_isTerminated]
  split at result
  · cases result
  · next isOpen =>
      cases result
      rw [if_neg isOpen]
      simp only [rename, List.map_modify same]

theorem rename_emit {instr : Instr} {later : Builder} (result : builder.emit instr = .ok later) :
    (builder.rename change).emit (instr.rename change) = .ok (later.rename change) :=
  builder.rename_modifyOpen (fun block => by simp [Block.rename]) result

theorem rename_terminate {terminator : Terminator} {later : Builder}
    (result : builder.terminate terminator = .ok later) :
    (builder.rename change).terminate (terminator.rename change) = .ok (later.rename change) :=
  builder.rename_modifyOpen (fun block => by simp [Block.rename]) result

theorem rename_finish : (builder.rename change).finish = builder.finish.rename change := by
  simp only [finish, rename, Function.rename]
  rw [List.map_modify (fun block => ?_) builder.blocks 0]
  · rfl
  · simp [Block.rename]

end Ir.Builder

/-! ## Names -/

namespace NameMap

variable {α β : Type} (f : α → β) (map : NameMap α)

/-- The map with other values under the same names. -/
def mapValues : NameMap β where
  entries := map.entries.map fun entry => (entry.1, f entry.2)
  increasing := by simpa [NamesIncrease, List.pairwise_map] using map.increasing

theorem get?_mapValues (name : String) : (map.mapValues f).get? name = (map.get? name).map f := by
  simp only [get?, mapValues]
  induction map.entries with
  | nil => rfl
  | cons entry rest ih =>
      obtain ⟨other, value⟩ := entry
      simp only [List.map_cons, List.lookup_cons]
      split
      · rfl
      · exact ih

theorem mapValues_insert (name : String) (value : α) :
    (map.insert name value).mapValues f = (map.mapValues f).insert name (f value) := by
  simp only [insert, mapValues]
  congr 1
  induction map.entries with
  | nil => rfl
  | cons entry rest ih =>
      obtain ⟨other, old⟩ := entry
      simp only [insertEntry, List.map_cons]
      by_cases lt : name < other
      · simp [lt]
      · by_cases eq : name = other
        · simp [eq]
        · simp [lt, eq, ih]

end NameMap

namespace Scopes

variable {α β : Type} (f : α → β) (scopes : Scopes α)

/-- The scopes with other values of the same names. -/
def mapValues : Scopes β where
  frames := scopes.frames.map fun frame => ⟨frame.parent, frame.names.mapValues f⟩
  current := scopes.current
  current_lt := by simpa using scopes.current_lt
  older := by
    intro id frame there parent inside
    rw [List.getElem?_map] at there
    obtain ⟨old, found, rfl⟩ := Option.map_eq_some_iff.mp there
    exact scopes.older id old found parent inside

theorem frame_mapValues :
    (scopes.mapValues f).frame = ⟨scopes.frame.parent, scopes.frame.names.mapValues f⟩ := by
  have here := (scopes.mapValues f).frame_eq
  have there := scopes.frame_eq
  simp only [mapValues, List.getElem?_map] at here
  rw [there] at here
  exact (Option.some.inj here).symm

theorem lookupLocal_mapValues (name : String) :
    (scopes.mapValues f).lookupLocal name = (scopes.lookupLocal name).map f := by
  rw [lookupLocal, frame_mapValues, NameMap.get?_mapValues, lookupLocal]

theorem lookupFrom_mapValues (name : String) (id : Nat) :
    (scopes.mapValues f).lookupFrom name id = (scopes.lookupFrom name id).map f := by
  induction id using Nat.strongRecOn with
  | ind id ih =>
      rw [lookupFrom_eq, lookupFrom_eq]
      simp only [mapValues, List.getElem?_map]
      cases there : scopes.frames[id]? with
      | none => rfl
      | some frame =>
          simp only [Option.map_some, Option.bind_some, NameMap.get?_mapValues]
          cases frame.names.get? name with
          | some value => rfl
          | none =>
              simp only [Option.map_none, Option.none_or]
              cases inside : frame.parent with
              | none => rfl
              | some parent => exact ih parent (scopes.older id frame there parent inside)

theorem lookup_mapValues (name : String) :
    (scopes.mapValues f).lookup name = (scopes.lookup name).map f :=
  scopes.lookupFrom_mapValues f name scopes.current

theorem mapValues_define (name : String) (value : α) :
    (scopes.define name value).mapValues f = (scopes.mapValues f).define name (f value) := by
  simp only [define, mapValues]
  congr 1
  refine (List.map_modify (fun frame => ?_) scopes.frames scopes.current).symm
  rw [NameMap.mapValues_insert]

theorem mapValues_push : scopes.push.mapValues f = (scopes.mapValues f).push := by
  simp [push, mapValues, NameMap.mapValues, NameMap.empty]

theorem mapValues_empty : (empty : Scopes α).mapValues f = empty := rfl

end Scopes

end LlvmBackend
