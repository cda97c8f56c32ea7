import LlvmBackend.Proofs.Ir.Log

/-! # Slots in place

A builder can put slots where they belong as they come: into the first block, behind the slots that
are there. Such a builder and one that keeps the slots apart until the end cannot be told apart.
Main statement: `Ir.Builder.record_refines`.
-/

namespace LlvmBackend.Ir

open Builder (Operation Reply Log Logs record fresh entersKnown)

/-- A function that is being built, with its slots in the first block. -/
structure InPlace extends Function where
  current : BlockId := 0
  /-- So many slots stand before the code of the first block. -/
  hoisted : Nat := 0

namespace InPlace

def start (name : String) (returns : IrType) (params : List Param) (attributes : List String) :
    InPlace where
  name := name
  returns := returns
  params := params
  attributes := attributes
  blocks := [{}]
  layout := [0]

variable (place : InPlace)

/-- The block in use. -/
def inUse : Block := place.block place.current

/-- Changes the block in use if control does not leave it yet. -/
def modifyOpen (change : Block → Block) : Reply × InPlace :=
  if place.inUse.terminator.isSome then
    (.error (.blockAlreadyTerminated place.name (place.inUse.label.getD "entry")), place)
  else
    (.ok none, { place with blocks := place.blocks.modify place.current change })

/-- Carries out an operation. -/
def perform : Operation → Reply × InPlace
  | .createBlock label hint =>
    (.ok (some place.blocks.length), { place with blocks := place.blocks ++ [{ label, hint }] })
  | .switchTo block =>
    (.ok none,
      { place with
        layout := if block ∈ place.layout then place.layout else place.layout ++ [block]
        current := block })
  | .emit instr => place.modifyOpen fun block => { block with instrs := block.instrs ++ [instr] }
  | .terminate terminator =>
    place.modifyOpen fun block => { block with terminator := some terminator }
  | .hoist instr =>
    (.ok none,
      { place with
        blocks := place.blocks.modify (place.layout.headD 0) fun block =>
          { block with instrs := block.instrs.insertIdx place.hoisted instr }
        hoisted := place.hoisted + 1 })

/-- Carries out operations one after the other, with what each of them answers. -/
def run (place : InPlace) : List Operation → List Reply × InPlace
  | [] => ([], place)
  | operation :: rest =>
    let (reply, later) := place.perform operation
    let (replies, last) := later.run rest
    (reply :: replies, last)

variable {place}

theorem modifyOpen_of_refused {change : Block → Block}
    (refused : (place.modifyOpen change).1.toBool = false) : (place.modifyOpen change).2 = place := by
  unfold modifyOpen at refused ⊢
  split
  · rfl
  · next isOpen => rw [if_neg isOpen] at refused; contradiction

/-- What is refused changes nothing. -/
theorem perform_of_refused {operation : Operation}
    (refused : (place.perform operation).1.toBool = false) :
    (place.perform operation).2 = place := by
  cases operation with
  | emit | terminate => exact modifyOpen_of_refused refused
  | createBlock | switchTo | hoist => contradiction

/-! ## Slots before code -/

/-- A block with slots before its code. -/
def lead (slots : List Instr) (block : Block) : Block :=
  { block with instrs := slots ++ block.instrs }

theorem insertIdx_between {α : Type} (first second : List α) (new : α) :
    (first ++ second).insertIdx first.length new = first ++ [new] ++ second := by
  induction first with
  | nil => rfl
  | cons head rest ih => simpa [List.insertIdx_succ_cons] using ih

/-- Changes that do not disturb each other can be made in any order. -/
theorem modify_comm {α : Type} {first second : α → α} (comm : first ∘ second = second ∘ first)
    (values : List α) (i j : Nat) :
    (values.modify i first).modify j second = (values.modify j second).modify i first := by
  by_cases same : i = j
  · rw [same, List.modify_modify_eq, List.modify_modify_eq, comm]
  · exact List.modify_modify_ne first second values same

/-- A builder with its slots in place, beside one that keeps them apart. -/
structure Holds (place : InPlace) (builder : Builder) : Prop where
  function : place.toFunction = builder.finish
  current : place.current = builder.current
  hoisted : place.hoisted = builder.slots.length
  first : 0 < builder.blocks.length

/-- The same answer, and builders that can be used side by side. -/
def Alike (first : Reply × InPlace) (second : Reply × Builder) : Prop :=
  first.1 = second.1 ∧ Holds first.2 second.2

namespace Holds

variable {builder : Builder}

theorem blocks (holds : Holds place builder) :
    place.blocks = builder.blocks.modify 0 (lead builder.slots) :=
  congrArg Function.blocks holds.function

theorem layout (holds : Holds place builder) : place.layout = builder.layout :=
  congrArg Function.layout holds.function

/-- Slots are all that is added to the block in use. -/
theorem inUse (holds : Holds place builder) :
    place.inUse.terminator = builder.block.terminator ∧
      place.inUse.label = builder.block.label := by
  unfold InPlace.inUse Function.block Builder.block
  rw [holds.blocks, holds.current, List.getElem?_modify]
  cases builder.blocks[builder.current]? with
  | none => exact ⟨rfl, rfl⟩
  | some block =>
      by_cases first : 0 = builder.current
      · simp [first, lead]
      · simp [first]

/-- The slots of the first block leave room for one more behind them. -/
theorem hoisted_le (holds : Holds place builder) :
    place.hoisted ≤ (place.block 0).instrs.length := by
  unfold Function.block
  rw [holds.blocks, holds.hoisted, List.getElem?_modify, List.getElem?_eq_getElem holds.first]
  simp [lead]

/-- Other blocks and slots, in place and apart. -/
theorem replace (holds : Holds place builder) {led blocks : List Block} {slots : List Instr}
    (same : led = blocks.modify 0 (lead slots)) :
    { place.toFunction with blocks := led } =
      { builder with blocks := blocks, slots := slots }.finish := by
  rw [same, holds.function]
  rfl

theorem modifyOpen (holds : Holds place builder) {change : Block → Block}
    (comm : ∀ slots, change ∘ lead slots = lead slots ∘ change) :
    Alike (place.modifyOpen change) (builder.settle (builder.modifyOpen change)) := by
  obtain ⟨terminator, label⟩ := holds.inUse
  rw [Builder.settle_modifyOpen, Builder.isTerminated, ← terminator, ← label]
  unfold InPlace.modifyOpen
  split
  · rw [congrArg Function.name holds.function]
    exact ⟨rfl, holds⟩
  · have blocks : place.blocks.modify place.current change =
        (builder.blocks.modify builder.current change).modify 0 (lead builder.slots) := by
      rw [holds.blocks, holds.current, modify_comm (comm builder.slots).symm]
    refine ⟨rfl, holds.replace blocks, holds.current, holds.hoisted, ?_⟩
    rw [List.length_modify]
    exact holds.first

theorem createBlock (holds : Holds place builder) (label hint : String) :
    Alike (place.perform (.createBlock label hint)) (builder.perform (.createBlock label hint)) := by
  have length : place.blocks.length = builder.blocks.length := by
    rw [holds.blocks, List.length_modify]
  -- The slots go to the first block, which is not the new one.
  have blocks (new : Block) :
      place.blocks ++ [new] = (builder.blocks ++ [new]).modify 0 (lead builder.slots) := by
    rw [holds.blocks]
    obtain ⟨entry, rest, blocks⟩ := List.exists_cons_of_length_pos holds.first
    rw [blocks]
    rfl
  refine ⟨congrArg (Except.ok ∘ some) length, holds.replace (blocks _), holds.current,
    holds.hoisted, ?_⟩
  change 0 < (builder.blocks ++ [_]).length
  rw [List.length_append]
  exact Nat.lt_add_right _ holds.first

theorem switchTo (holds : Holds place builder) (block : BlockId) :
    Alike (place.perform (.switchTo block)) (builder.perform (.switchTo block)) := by
  have layout : (if block ∈ place.layout then place.layout else place.layout ++ [block]) =
      (builder.switchTo block).layout := by
    rw [holds.layout]
    unfold Builder.switchTo Builder.layout
    split <;> rfl
  have function : (place.perform (.switchTo block)).2.toFunction =
      { place.toFunction with layout := (builder.switchTo block).layout } :=
    congrArg (fun layout => { place.toFunction with layout }) layout
  refine ⟨rfl, ?_, rfl, holds.hoisted, holds.first⟩
  rw [function, holds.function]
  rfl

theorem hoist (holds : Holds place builder) (instr : Instr) :
    Alike (place.perform (.hoist instr)) (builder.perform (.hoist instr)) := by
  -- As many slots as were counted stand in front, so the new one comes between them and the code.
  have more : (fun block : Block =>
      { block with instrs := block.instrs.insertIdx place.hoisted instr }) ∘ lead builder.slots =
        lead (builder.slots ++ [instr]) := by
    funext block
    simp only [Function.comp, lead, holds.hoisted, insertIdx_between]
  refine ⟨rfl, holds.replace ?_, holds.current, ?_, holds.first⟩
  · rw [holds.blocks, holds.layout, Builder.layout, List.headD_cons, List.modify_modify_eq, more]
  · change place.hoisted + 1 = (builder.slots ++ [instr]).length
    rw [holds.hoisted, List.length_append, List.length_singleton]

/-- Whatever is done with both, they answer alike. -/
theorem perform (holds : Holds place builder) (operation : Operation) :
    Alike (place.perform operation) (builder.perform operation) := by
  cases operation with
  | createBlock label hint => exact holds.createBlock label hint
  | switchTo block => exact holds.switchTo block
  | emit instr =>
      refine holds.modifyOpen fun slots => funext fun block => ?_
      simp [lead]
  | terminate terminator => exact holds.modifyOpen fun _ => rfl
  | hoist instr => exact holds.hoist instr

theorem run (holds : Holds place builder) (log : Log) (operations : List Operation) :
    (record log builder operations).1.map (·.reply) =
        log.map (·.reply) ++ (place.run operations).1 ∧
      Holds (place.run operations).2 (record log builder operations).2 := by
  induction operations generalizing place builder log with
  | nil => exact ⟨(List.append_nil _).symm, holds⟩
  | cons operation rest ih =>
      obtain ⟨reply, later⟩ := holds.perform operation
      obtain ⟨replies, last⟩ :=
        ih later (log ++ [⟨log.current, operation, (builder.perform operation).1⟩])
      refine ⟨replies.trans ?_, last⟩
      rw [List.map_append, List.append_assoc, ← reply]
      rfl

end Holds

theorem holds_start (name : String) (returns : IrType) (params : List Param)
    (attributes : List String) :
    Holds (start name returns params attributes) (fresh name returns params attributes) :=
  ⟨rfl, rfl, rfl, Nat.one_pos⟩

end InPlace

namespace Builder

/-- What is known of a builder, of its log, and of a builder that puts slots in place. -/
structure Refines (start : Builder) (operations : List Operation) (told : Log × Builder)
    (built : List Reply × InPlace) : Prop where
  logs : Logs start operations told.1 told.2
  replies : built.1 = told.1.map (·.reply)
  current : built.2.current = told.2.current
  function : built.2.toFunction = told.2.finish
  /-- There is a place for the next slot. -/
  room : built.2.hoisted ≤ (built.2.block 0).instrs.length
  unchanged : ∀ operation, (built.2.perform operation).1.toBool = false →
    (built.2.perform operation).2 = built.2

/-- However a builder is used, it does what the log of the operations tells, with slots kept apart as
well as with slots in place. -/
theorem record_refines {name : String} {returns : IrType} {params : List Param}
    {attributes : List String} {operations : List Operation} (enters : entersKnown 1 operations) :
    Refines (fresh name returns params attributes) operations
      (record [] (fresh name returns params attributes) operations)
      ((InPlace.start name returns params attributes).run operations) := by
  obtain ⟨replies, holds⟩ :=
    (InPlace.holds_start name returns params attributes).run [] operations
  exact ⟨logs_record enters, replies.symm, holds.current, holds.function, holds.hoisted_le,
    fun _ => InPlace.perform_of_refused⟩

/-- Blocks that are left and entered again, with slots that come while the first one is closed. -/
def reentering : List Operation :=
  [.createBlock "L1" "if-fin", .createBlock "L2" "if-suite-0",
    .emit (.alloca (.temp 1) .i64), .terminate (.br 2), .hoist (.alloca (.named "x") .i64),
    .switchTo 2, .emit (.alloca (.temp 2) .i64), .switchTo 1, .terminate (.ret none),
    .switchTo 2, .emit (.alloca (.temp 3) .i64), .terminate (.br 1), .emit (.alloca (.temp 4) .i64),
    .switchTo 0, .hoist (.alloca (.named "y") .i1), .terminate (.ret none)]

theorem reentering_refines :
    entersKnown 1 reentering ∧
      Refines (fresh "f" .void [] []) reentering (record [] (fresh "f" .void [] []) reentering)
        ((InPlace.start "f" .void [] []).run reentering) ∧
      ((InPlace.start "f" .void [] []).run reentering).2.orderedBlocks.map (·.instrs) =
        [[.alloca (.named "x") .i64, .alloca (.named "y") .i1, .alloca (.temp 1) .i64],
          [.alloca (.temp 2) .i64, .alloca (.temp 3) .i64], []] :=
  ⟨rfl, record_refines rfl, rfl⟩

end Builder

end LlvmBackend.Ir
