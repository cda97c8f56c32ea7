import LlvmBackend.Proofs.Build.Frame
import LlvmBackend.Proofs.Translation
import LlvmBackend.Proofs.Yields

/-! # Single steps of the lowering

What the single steps do to the site at which a function is built. The slots of variables are put
before the first block when the function is finished; here they stand there from the start, as if
they were known.
-/

namespace LlvmBackend

open Ir

namespace FunctionState

/-- The site at which a function is built, with the given slots before its code. -/
def site (slots : List Instr) (state : FunctionState) : Site where
  table := fun id =>
    let block := state.builder.blocks[id]?.getD {}
    if id = 0 then { block with instrs := slots ++ block.instrs } else block
  size := state.builder.blocks.length
  entered := state.builder.entered
  current := state.builder.current
  nextTemp := state.supply.nextTemp
  nextLabel := state.supply.nextLabel
  used := state.supply.used
  slots := state.builder.slots

def names (state : FunctionState) : Names := ⟨state.scopes, state.slots, state.supply.used⟩

/-- The function without its code. -/
def header (state : FunctionState) : Builder :=
  { state.builder with blocks := [{}], entered := [], current := 0, slots := [] }

/-- Nothing is bound and nothing is taken from one state to another. -/
structure Keeps (state later : FunctionState) : Prop where
  names : later.names = state.names
  header : later.header = state.header

theorem Keeps.refl (state : FunctionState) : state.Keeps state := ⟨rfl, rfl⟩

theorem Keeps.trans {state later last : FunctionState} (h₁ : state.Keeps later)
    (h₂ : later.Keeps last) : state.Keeps last :=
  ⟨h₂.names.trans h₁.names, h₂.header.trans h₁.header⟩

/-- The block in use exists and takes instructions. -/
structure Ready (slots : List Instr) (state : FunctionState) : Prop where
  valid : (state.site slots).Valid
  isOpen : (state.site slots).Open

variable {slots : List Instr} {state : FunctionState}

theorem terminator_eq : (state.site slots).block.terminator = state.builder.block.terminator := by
  simp only [Site.block, site, Builder.block]
  split <;> rfl

theorem Ready.not_terminated (ready : state.Ready slots) : state.builder.isTerminated = false := by
  have isOpen := ready.isOpen
  rw [Site.Open, terminator_eq] at isOpen
  simp [Builder.isTerminated, isOpen]

/-- A change of the block in use is one of the site, if it only goes on behind the slots. -/
theorem site_modify {change : Block → Block} (lt : state.builder.current < state.builder.blocks.length)
    (behind : ∀ block : Block, change { block with instrs := slots ++ block.instrs } =
      { change block with instrs := slots ++ (change block).instrs }) :
    site slots { state with builder :=
      { state.builder with blocks := state.builder.blocks.modify state.builder.current change } } =
      (state.site slots).modify change := by
  simp only [site, Site.modify, Site.block, List.length_modify]
  congr 1
  funext id
  rw [List.getElem?_modify]
  by_cases eq : id = state.builder.current
  · subst eq
    rw [Function.update_self, List.getElem?_eq_getElem lt]
    simp only [if_true]
    split
    · exact (behind _).symm
    · rfl
  · rw [Function.update_of_ne eq]
    simp [Ne.symm eq]

end FunctionState

namespace Lowering

variable {slots : List Instr} {state : FunctionState}

open FunctionState

/-- A step that asks for the state goes on with it. -/
theorem get_bind {α : Type} (next : FunctionState → Lowering α) :
    ((get : Lowering FunctionState) >>= next) state = next state state := rfl

theorem emit_eq (instr : Instr) : emit instr state =
    match state.builder.emit instr with
    | .ok builder => .ok () { state with builder }
    | .error error => .error error state := by
  cases result : state.builder.emit instr <;>
    simp only [emit, get_bind, result] <;> rfl

theorem emit_yields (slots : List Instr)
    (lt : state.builder.current < state.builder.blocks.length)
    (isOpen : state.builder.isTerminated = false) (instr : Instr) :
    Yields (emit instr) state fun _ later =>
      later.site slots = (state.site slots).modify
        (fun block => { block with instrs := block.instrs ++ [instr] }) ∧ state.Keeps later := by
  unfold Yields
  rw [emit_eq]
  simp only [Builder.emit, Builder.modifyOpen, isOpen]
  exact ⟨site_modify lt fun _ => by simp, rfl, rfl⟩

/-- An instruction that defines no temporary is added. -/
theorem put_yields (ready : state.Ready slots) {instr : Instr} (number : instr.number? = none) :
    Yields (emit instr) state fun _ later =>
      later.site slots = (state.site slots).put instr ∧ state.Keeps later := by
  refine (emit_yields slots ready.valid.current_lt ready.not_terminated instr).mono ?_
  rintro _ later ⟨eq, keeps⟩
  refine ⟨?_, keeps⟩
  rw [eq]
  simp [Site.put, number, Site.modify]

theorem terminate_eq (terminator : Terminator) : terminate terminator state =
    match state.builder.terminate terminator with
    | .ok builder => .ok () { state with builder }
    | .error error => .error error state := by
  cases result : state.builder.terminate terminator <;>
    simp only [terminate, get_bind, result] <;> rfl

theorem terminate_yields (ready : state.Ready slots) (terminator : Terminator) :
    Yields (terminate terminator) state fun _ later =>
      later.site slots = (state.site slots).close terminator ∧ state.Keeps later := by
  unfold Yields
  rw [terminate_eq]
  simp only [Builder.terminate, Builder.modifyOpen, ready.not_terminated]
  exact ⟨site_modify ready.valid.current_lt fun _ => rfl, rfl, rfl⟩

theorem getD_append_singleton (blocks : List Block) (block : Block) (id : BlockId) :
    (blocks ++ [block])[id]?.getD {} =
      if id = blocks.length then block else blocks[id]?.getD {} := by
  rcases Nat.lt_trichotomy id blocks.length with lt | eq | gt
  · rw [List.getElem?_append_left lt, if_neg (Nat.ne_of_lt lt)]
  · simp [eq]
  · rw [if_neg (Nat.ne_of_gt gt), List.getElem?_eq_none (by simpa [Nat.succ_le_iff] using gt),
      List.getElem?_eq_none (Nat.le_of_lt gt)]

theorem newBlock_yields (valid : (state.site slots).Valid) (hint : String) :
    Yields (newBlock hint) state fun id later =>
      id = (state.site slots).size ∧ later.site slots = (state.site slots).fresh hint ∧
        state.Keeps later := by
  refine .modifiesGet ⟨rfl, ?_, rfl, rfl⟩
  have pos : state.builder.blocks.length ≠ 0 := Nat.ne_of_gt valid.size_pos
  simp only [site, Site.fresh, Builder.createBlock, Supply.label, List.length_append,
    List.length_singleton]
  congr 1
  funext id
  rw [getD_append_singleton]
  by_cases eq : id = state.builder.blocks.length
  · subst eq
    rw [Function.update_self]
    simp [pos]
  · rw [Function.update_of_ne eq, if_neg eq]

theorem switchTo_yields (slots : List Instr) (id : BlockId) :
    Yields (switchTo id) state fun _ later =>
      later.site slots = (state.site slots).enter id ∧ state.Keeps later :=
  .modifies ⟨rfl, rfl, rfl⟩

/-- The number of a temporary is drawn and the temporary defined at once. -/
theorem defineNumber_yields {α : Type} {post : α → FunctionState → Prop} (ready : state.Ready slots)
    (instr : Nat → Instr) (dest : ∀ n, (instr n).dest = some (.temp n))
    {next : Nat → Lowering α}
    (goesOn : ∀ later, later.site slots =
        (state.site slots).put (instr (state.site slots).nextTemp) →
      state.Keeps later → Yields (next (state.site slots).nextTemp) later post) :
    Yields (tempNumber >>= fun n => emit (instr n) >>= fun _ => next n) state post := by
  have drawn : Yields tempNumber state fun n later =>
      n = (state.site slots).nextTemp ∧
        later = { state with supply := state.supply.temp.2 } :=
    ⟨rfl, rfl⟩
  refine drawn.bind ?_
  rintro _ _ ⟨rfl, rfl⟩
  have emitted := @emit_yields { state with supply := state.supply.temp.2 } slots
    ready.valid.current_lt ready.not_terminated (instr (state.site slots).nextTemp)
  refine emitted.bind ?_
  rintro _ later ⟨eq, keeps⟩
  refine goesOn later ?_ ⟨keeps.names, keeps.header⟩
  rw [eq]
  simp only [Site.put, Instr.number?, dest, Operand.temp?, Option.bind_some, Option.isSome_some,
    if_true]
  rfl

/-- A temporary is drawn and defined at once. -/
theorem define_yields {α : Type} {post : α → FunctionState → Prop} (ready : state.Ready slots)
    (instr : Operand → Instr) (dest : ∀ n, (instr (.temp n)).dest = some (.temp n))
    {next : Operand → Lowering α}
    (goesOn : ∀ later, later.site slots =
        (state.site slots).put (instr (.temp (state.site slots).nextTemp)) →
      state.Keeps later → Yields (next (.temp (state.site slots).nextTemp)) later post) :
    Yields (temp >>= fun dest => emit (instr dest) >>= fun _ => next dest) state post := by
  simp only [temp, bind_assoc, pure_bind]
  exact defineNumber_yields ready (fun n => instr (.temp n)) dest goesOn

/-! ## Blocks -/

theorem leave_yields {α : Type} {post : α → FunctionState → Prop} (ready : state.Ready slots)
    (terminator : Terminator) (id : BlockId) {next : Lowering α}
    (goesOn : ∀ later, later.site slots = (state.site slots).leave terminator id →
      state.Keeps later → Yields next later post) :
    Yields (terminate terminator >>= fun _ => switchTo id >>= fun _ => next) state post := by
  refine (terminate_yields ready terminator).bind ?_
  rintro _ middle ⟨eq, keeps⟩
  refine (switchTo_yields slots id).bind ?_
  rintro _ later ⟨eq', keeps'⟩
  exact goesOn later (by rw [eq', eq]) (keeps.trans keeps')

theorem freshBlock_yields {α : Type} {post : α → FunctionState → Prop} (ready : state.Ready slots)
    (hint : String) {next : BlockId → Lowering α}
    (goesOn : ∀ later, later.site slots = (state.site slots).fresh hint → later.Ready slots →
      state.Keeps later → Yields (next (state.site slots).size) later post) :
    Yields (newBlock hint >>= next) state post := by
  refine (newBlock_yields ready.valid hint).bind ?_
  rintro _ later ⟨rfl, eq, keeps⟩
  refine goesOn later eq ⟨eq ▸ ready.valid.fresh hint, ?_⟩ keeps
  exact eq ▸ (Site.open_fresh ready.valid hint).mpr ready.isOpen

theorem oneBlock_yields {α : Type} {post : α → FunctionState → Prop} (ready : state.Ready slots)
    (a : String) (terminator : BlockId → Terminator) {next : BlockId → Lowering α}
    (goesOn : ∀ later,
      later.site slots = ((state.site slots).fresh a).leave (terminator (state.site slots).size)
        (state.site slots).size →
      state.Keeps later → Yields (next (state.site slots).size) later post) :
    Yields (do
      let first ← newBlock a
      terminate (terminator first)
      switchTo first
      next first) state post := by
  refine freshBlock_yields ready a fun state₁ eq₁ ready₁ keeps₁ => ?_
  refine leave_yields ready₁ _ _ fun later eq keeps => ?_
  exact goesOn later (by rw [eq, eq₁]) (keeps₁.trans keeps)

theorem twoBlocks_yields {α : Type} {post : α → FunctionState → Prop} (ready : state.Ready slots)
    (a b : String) (terminator : BlockId → BlockId → Terminator)
    {next : BlockId → BlockId → Lowering α}
    (goesOn : ∀ later,
      later.site slots = (state.site slots).enterTwo
        (terminator (state.site slots).size ((state.site slots).size + 1)) a b →
      state.Keeps later →
      Yields (next (state.site slots).size ((state.site slots).size + 1)) later post) :
    Yields (do
      let first ← newBlock a
      let second ← newBlock b
      terminate (terminator first second)
      switchTo first
      next first second) state post := by
  refine freshBlock_yields ready a fun state₁ eq₁ ready₁ keeps₁ => ?_
  refine freshBlock_yields ready₁ b fun state₂ eq₂ ready₂ keeps₂ => ?_
  rw [eq₁, Site.fresh_size]
  refine leave_yields ready₂ _ _ fun later eq keeps => ?_
  exact goesOn later (by rw [eq, eq₂, eq₁]) (keeps₁.trans (keeps₂.trans keeps))

theorem threeBlocks_yields {α : Type} {post : α → FunctionState → Prop} (ready : state.Ready slots)
    (a b c : String) (terminator : BlockId → BlockId → BlockId → Terminator)
    {next : BlockId → BlockId → BlockId → Lowering α}
    (goesOn : ∀ later,
      later.site slots = (state.site slots).enterThree (terminator (state.site slots).size
        ((state.site slots).size + 1) ((state.site slots).size + 2)) a b c →
      state.Keeps later →
      Yields (next (state.site slots).size ((state.site slots).size + 1)
        ((state.site slots).size + 2)) later post) :
    Yields (do
      let first ← newBlock a
      let second ← newBlock b
      let third ← newBlock c
      terminate (terminator first second third)
      switchTo first
      next first second third) state post := by
  refine freshBlock_yields ready a fun state₁ eq₁ ready₁ keeps₁ => ?_
  refine freshBlock_yields ready₁ b fun state₂ eq₂ ready₂ keeps₂ => ?_
  refine freshBlock_yields ready₂ c fun state₃ eq₃ ready₃ keeps₃ => ?_
  rw [eq₂, eq₁, Site.fresh_size, Site.fresh_size]
  refine leave_yields ready₃ _ _ fun later eq keeps => ?_
  exact goesOn later (by rw [eq, eq₃, eq₂, eq₁]; rfl) (keeps₁.trans (keeps₂.trans (keeps₃.trans keeps)))

end Lowering

end LlvmBackend
