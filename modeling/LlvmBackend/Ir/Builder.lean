import LlvmBackend.CodegenError

/-!
# Building a function

A function is built block by block: blocks are created with a label, stand in the function in the
order in which they are first entered, and take instructions until they have a terminator. The slots
of variables stand before everything else.
-/

namespace LlvmBackend.Ir

/-- A function that is being built. -/
structure Builder where
  name : String
  returns : IrType
  params : List Param
  attributes : List String := []
  /-- All blocks that were created; the function starts with the first. -/
  blocks : List Block := [{}]
  /-- The blocks after the first, in the order in which they were entered. -/
  entered : List BlockId := []
  current : BlockId := 0
  /-- What stands before the code of the first block. -/
  slots : List Instr := []

namespace Builder

variable (builder : Builder)

/-- The blocks that have a place. -/
def layout : List BlockId := 0 :: builder.entered

/-- The block in use. -/
def block : Block := builder.blocks[builder.current]?.getD {}

/-- Whether control already leaves the block in use. -/
def isTerminated : Bool := builder.block.terminator.isSome

/-- Creates a block, without entering it. -/
def createBlock (label hint : String) : BlockId × Builder :=
  (builder.blocks.length,
    { builder with blocks := builder.blocks ++ [{ label, hint }] })

/-- Enters a block, which gets its place if it has none yet. -/
def switchTo (block : BlockId) : Builder :=
  { builder with
    entered := if block ∈ builder.layout then builder.entered else builder.entered ++ [block]
    current := block }

/-- Changes the block in use if control does not leave it yet. -/
def modifyOpen (change : Block → Block) : Except CodegenError Builder :=
  if builder.isTerminated then
    .error (.blockAlreadyTerminated builder.name (builder.block.label.getD "entry"))
  else
    .ok { builder with blocks := builder.blocks.modify builder.current change }

/-- Adds an instruction to the block in use. -/
def emit (instr : Instr) : Except CodegenError Builder :=
  builder.modifyOpen fun block => { block with instrs := block.instrs ++ [instr] }

/-- Says how control leaves the block in use. -/
def terminate (terminator : Terminator) : Except CodegenError Builder :=
  builder.modifyOpen fun block => { block with terminator := some terminator }

/-- Adds an instruction after the ones that stand before the code of the first block. -/
def hoist (instr : Instr) : Builder := { builder with slots := builder.slots ++ [instr] }

/-- The function as it was built. -/
def finish : Function where
  name := builder.name
  returns := builder.returns
  params := builder.params
  attributes := builder.attributes
  blocks := builder.blocks.modify 0 fun block =>
    { block with instrs := builder.slots ++ block.instrs }
  layout := builder.layout

end Builder

end LlvmBackend.Ir
