import LlvmBackend.Proofs.Ir.Walk
import LlvmBackend.Supply
import Mathlib.Data.List.Nodup
import Mathlib.Logic.Function.Basic

/-! # Building sites

The part of the state of a lowering that emitted code depends on: the blocks so far, the one in use
and what the next names are. `Valid` is what holds of a site at any time, and every change of a site
that the lowering makes keeps it.
-/

namespace LlvmBackend

open Ir

namespace Instr

/-- The number of the temporary that an instruction defines. -/
def number? (instr : Instr) : Option Nat := instr.dest.bind Operand.temp?

theorem isPhi_iff {instr : Instr} : instr.isPhi ↔ ∃ incoming, instr.incoming? = some incoming := by
  simp [isPhi, Option.isSome_iff_exists]

end Instr

namespace Block

/-- Where control can go from a block. -/
def successors (block : Block) : List BlockId :=
  match block.terminator with
  | some terminator => terminator.successors
  | none => []

/-- A block becomes another one by adding instructions and a terminator. -/
structure Grows (before after : Block) : Prop where
  instrs : before.instrs <+: after.instrs
  closed : before.terminator.isSome →
    after.instrs = before.instrs ∧ after.terminator = before.terminator

theorem Grows.refl (block : Block) : block.Grows block := ⟨List.prefix_rfl, fun _ => ⟨rfl, rfl⟩⟩

theorem Grows.trans {a b c : Block} (h₁ : a.Grows b) (h₂ : b.Grows c) : a.Grows c where
  instrs := h₁.instrs.trans h₂.instrs
  closed := by
    intro closed
    obtain ⟨instrs, terminator⟩ := h₁.closed closed
    obtain ⟨instrs', terminator'⟩ := h₂.closed (terminator ▸ closed)
    exact ⟨instrs'.trans instrs, terminator'.trans terminator⟩

theorem Grows.holds {before after : Block} {instr : Instr} {index : Nat}
    (grows : before.Grows after) (holds : before.instrs[index]? = some instr) :
    after.instrs[index]? = some instr := by
  obtain ⟨rest, eq⟩ := grows.instrs
  rw [← eq, List.getElem?_append_left (List.getElem?_eq_some_iff.mp holds).1]
  exact holds

end Block

namespace Ir.Table

variable {table later : Table} {spot : Spot}

/-- The blocks of a table become those of another one. -/
def Le (table later : Table) : Prop := ∀ id, (table id).Grows (later id)

theorem Le.refl (table : Table) : table.Le table := fun _ => .refl _

theorem Le.trans {last : Table} (h₁ : table.Le later) (h₂ : later.Le last) : table.Le last :=
  fun id => (h₁ id).trans (h₂ id)

/-- What stands at a spot stays there. -/
theorem Holds.le {instr : Instr} (holds : table.Holds spot instr) (le : table.Le later) :
    later.Holds spot instr :=
  (le spot.block).holds holds

theorem Ends.le {terminator : Terminator} (ends : table.Ends spot terminator)
    (le : table.Le later) : later.Ends spot terminator := by
  obtain ⟨instrs, same⟩ := (le spot.block).closed (by simp [ends.2])
  exact ⟨by rw [instrs, ends.1], by rw [same, ends.2]⟩

end Ir.Table

/-- The state of the blocks of a function that is being built. -/
structure Site where
  table : Table
  /-- How many blocks there are. -/
  size : Nat
  /-- The blocks after the first, in the order in which they were entered. -/
  entered : List BlockId
  current : BlockId
  nextTemp : Nat
  nextLabel : Nat
  /-- The names of storage that are taken. -/
  used : List String
  /-- The slots of variables. -/
  slots : List Instr

namespace Site

variable (site : Site)

/-- The blocks in the order in which they stand. -/
def layout : List BlockId := 0 :: site.entered

def block : Block := site.table site.current

/-- Where the next instruction will stand. -/
def spot : Spot := ⟨site.current, site.block.instrs.length⟩

/-- The block in use takes instructions. -/
def Open : Prop := site.block.terminator = none

/-- All instructions in the order in which they stand. -/
def instrs : List Instr := site.layout.flatMap fun id => (site.table id).instrs

/-! ## Changes -/

/-- Changes the block in use. -/
def modify (change : Block → Block) : Site :=
  { site with table := Function.update site.table site.current (change site.block) }

/-- Adds an instruction to the block in use; a temporary it defines is taken. -/
def put (instr : Instr) : Site :=
  { site.modify fun block => { block with instrs := block.instrs ++ [instr] } with
    nextTemp := if instr.number?.isSome then site.nextTemp + 1 else site.nextTemp }

/-- Gives the block in use a terminator. -/
def close (terminator : Terminator) : Site :=
  site.modify fun block => { block with terminator := some terminator }

/-- Creates a block. -/
def fresh (hint : String) : Site :=
  { site with
    table := Function.update site.table site.size
      { label := some s!"L{site.nextLabel}", hint := some hint }
    size := site.size + 1
    nextLabel := site.nextLabel + 1 }

/-- Goes on at a block. -/
def enter (id : BlockId) : Site :=
  { site with
    entered := if id ∈ site.layout then site.entered else site.entered ++ [id]
    current := id }

/-- Leaves the block in use and goes on at another one. -/
abbrev leave (terminator : Terminator) (id : BlockId) : Site := (site.close terminator).enter id

/-- Adds the slot of a variable. -/
def slotted (name : String) (type : IrType) : Site :=
  { site with
    slots := site.slots ++ [.alloca (.named name) type]
    used := name :: site.used }

section Simp

variable (instr : Instr) (terminator : Terminator) (hint name : String) (id : BlockId)
  (type : IrType)

@[simp] theorem put_size : (site.put instr).size = site.size := rfl
@[simp] theorem put_entered : (site.put instr).entered = site.entered := rfl
@[simp] theorem put_current : (site.put instr).current = site.current := rfl
@[simp] theorem put_nextLabel : (site.put instr).nextLabel = site.nextLabel := rfl
@[simp] theorem put_used : (site.put instr).used = site.used := rfl
@[simp] theorem put_slots : (site.put instr).slots = site.slots := rfl
@[simp] theorem put_layout : (site.put instr).layout = site.layout := rfl

@[simp] theorem put_here : (site.put instr).table site.current =
    { site.block with instrs := site.block.instrs ++ [instr] } :=
  Function.update_self ..

theorem put_other (ne : id ≠ site.current) : (site.put instr).table id = site.table id :=
  Function.update_of_ne ne ..

@[simp] theorem close_size : (site.close terminator).size = site.size := rfl
@[simp] theorem close_entered : (site.close terminator).entered = site.entered := rfl
@[simp] theorem close_current : (site.close terminator).current = site.current := rfl
@[simp] theorem close_nextTemp : (site.close terminator).nextTemp = site.nextTemp := rfl
@[simp] theorem close_nextLabel : (site.close terminator).nextLabel = site.nextLabel := rfl
@[simp] theorem close_used : (site.close terminator).used = site.used := rfl
@[simp] theorem close_slots : (site.close terminator).slots = site.slots := rfl
@[simp] theorem close_layout : (site.close terminator).layout = site.layout := rfl

@[simp] theorem close_here : (site.close terminator).table site.current =
    { site.block with terminator := some terminator } :=
  Function.update_self ..

theorem close_other (ne : id ≠ site.current) : (site.close terminator).table id = site.table id :=
  Function.update_of_ne ne ..

@[simp] theorem fresh_size : (site.fresh hint).size = site.size + 1 := rfl
@[simp] theorem fresh_entered : (site.fresh hint).entered = site.entered := rfl
@[simp] theorem fresh_current : (site.fresh hint).current = site.current := rfl
@[simp] theorem fresh_nextTemp : (site.fresh hint).nextTemp = site.nextTemp := rfl
@[simp] theorem fresh_nextLabel : (site.fresh hint).nextLabel = site.nextLabel + 1 := rfl
@[simp] theorem fresh_used : (site.fresh hint).used = site.used := rfl
@[simp] theorem fresh_slots : (site.fresh hint).slots = site.slots := rfl
@[simp] theorem fresh_layout : (site.fresh hint).layout = site.layout := rfl

@[simp] theorem fresh_here : (site.fresh hint).table site.size =
    { label := some s!"L{site.nextLabel}", hint := some hint } :=
  Function.update_self ..

theorem fresh_other (ne : id ≠ site.size) : (site.fresh hint).table id = site.table id :=
  Function.update_of_ne ne ..

@[simp] theorem enter_size : (site.enter id).size = site.size := rfl
@[simp] theorem enter_current : (site.enter id).current = id := rfl
@[simp] theorem enter_nextTemp : (site.enter id).nextTemp = site.nextTemp := rfl
@[simp] theorem enter_nextLabel : (site.enter id).nextLabel = site.nextLabel := rfl
@[simp] theorem enter_used : (site.enter id).used = site.used := rfl
@[simp] theorem enter_slots : (site.enter id).slots = site.slots := rfl
@[simp] theorem enter_table : (site.enter id).table = site.table := rfl

theorem enter_layout (new : id ∉ site.layout) :
    (site.enter id).layout = site.layout ++ [id] := by
  simp [enter, layout] at new ⊢
  simp [new]

@[simp] theorem slotted_size : (site.slotted name type).size = site.size := rfl
@[simp] theorem slotted_entered : (site.slotted name type).entered = site.entered := rfl
@[simp] theorem slotted_current : (site.slotted name type).current = site.current := rfl
@[simp] theorem slotted_nextTemp : (site.slotted name type).nextTemp = site.nextTemp := rfl
@[simp] theorem slotted_nextLabel : (site.slotted name type).nextLabel = site.nextLabel := rfl
@[simp] theorem slotted_layout : (site.slotted name type).layout = site.layout := rfl
@[simp] theorem slotted_table : (site.slotted name type).table = site.table := rfl

@[simp] theorem slotted_used : (site.slotted name type).used = name :: site.used := rfl

@[simp] theorem slotted_slots :
    (site.slotted name type).slots = site.slots ++ [.alloca (.named name) type] := rfl

end Simp

/-! ## Blocks that only grow -/

/-- All blocks of a site become those of another one. -/
abbrev Le (site later : Site) : Prop := site.table.Le later.table

variable {site : Site}

theorem Open.le_modify (change : Block → Block) (isOpen : site.Open)
    (grows : site.block.instrs <+: (change site.block).instrs) : site.Le (site.modify change) := by
  intro id
  by_cases eq : id = site.current
  · subst eq
    refine ⟨by simpa [modify, block] using grows, fun closed => ?_⟩
    have isOpen : (site.table site.current).terminator = none := isOpen
    simp [isOpen] at closed
  · simp only [modify, Function.update_of_ne eq]
    exact .refl _

theorem Open.le_put (isOpen : site.Open) (instr : Instr) : site.Le (site.put instr) :=
  isOpen.le_modify (fun block => { block with instrs := block.instrs ++ [instr] })
    (List.prefix_append _ _)

theorem Open.le_close (isOpen : site.Open) (terminator : Terminator) :
    site.Le (site.close terminator) :=
  isOpen.le_modify (fun block => { block with terminator := terminator })
    List.prefix_rfl

theorem close_ends (terminator : Terminator) :
    (site.close terminator).table.Ends site.spot terminator := by
  simp [Table.Ends, spot]

theorem put_holds (instr : Instr) : (site.put instr).table.Holds site.spot instr := by
  simp [Table.Holds, spot]

@[simp] theorem put_spot (instr : Instr) : (site.put instr).spot = site.spot.next := by
  simp [spot, Spot.next, block]

end Site

end LlvmBackend
