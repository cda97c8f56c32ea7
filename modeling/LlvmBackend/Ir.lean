import LlvmBackend.Binary64

/-!
# Intermediate code

Modules of functions of basic blocks, in the textual dialect of LLVM with typed pointers. Types are
texts; a block is named by its place among the blocks of its function, and the blocks are laid out
in an order of their own.
-/

namespace LlvmBackend

/-- What an instruction can read. -/
inductive Operand where
  /-- A numbered register. -/
  | temp (n : Nat)
  /-- A named register: a parameter or the slot of a variable. -/
  | named (name : String)
  /-- A symbol of the module. -/
  | symbol (name : String)
  | bool (value : Bool)
  | int (value : Int64)
  deriving DecidableEq, Repr

/-- The number of a numbered register. -/
def Operand.temp? : Operand → Option Nat
  | .temp n => some n
  | _ => none

/-- A type of the intermediate code, as it is written. -/
structure IrType where
  text : String
  deriving DecidableEq, Repr

namespace IrType

def void : IrType := ⟨"void"⟩

def i1 : IrType := ⟨"i1"⟩

def i32 : IrType := ⟨"i32"⟩

def i64 : IrType := ⟨"i64"⟩

def i8 : IrType := ⟨"i8"⟩

/-- The type of a pointer to values of a type. -/
def ptr (type : IrType) : IrType := ⟨type.text ++ "*"⟩

def isVoid (type : IrType) : Bool := type = void

end IrType

/-- An operand and its type. -/
structure TypedOperand where
  type : IrType
  operand : Operand
  deriving DecidableEq, Repr

/-- The place of a block in its function. -/
abbrev BlockId := Nat

/-- An instruction. What it defines is a numbered or a named register. -/
inductive Instr where
  /-- Storage for one value of a type. -/
  | alloca (dest : Operand) (type : IrType)
  /-- Reads a value from an address. -/
  | load (dest : Operand) (type : IrType) (source : Operand)
  /-- Writes a value to an address. -/
  | store (value : TypedOperand) (dest : Operand)
  /-- Calls a function. -/
  | call (dest : Option Operand) (returns : IrType) (callee : String) (args : List TypedOperand)
  /-- The address of a part of what stands at an address. -/
  | elementPtr (dest : Operand) (type : IrType) (base : Operand) (indices : List TypedOperand)
  /-- One of two values, by a condition. -/
  | select (dest : Operand) (condition : Operand) (onTrue onFalse : TypedOperand)
  /-- The value of the predecessor that control came from. -/
  | phi (dest : Operand) (type : IrType) (incoming : List (Operand × BlockId))
  deriving DecidableEq, Repr

namespace Instr

/-- What an instruction defines. -/
def dest : Instr → Option Operand
  | .alloca dest _ => some dest
  | .load dest _ _ => some dest
  | .store _ _ => none
  | .call dest _ _ _ => dest
  | .elementPtr dest _ _ _ => some dest
  | .select dest _ _ _ => some dest
  | .phi dest _ _ => some dest

/-- The sources of a merge of values. -/
def incoming? : Instr → Option (List (Operand × BlockId))
  | .phi _ _ incoming => some incoming
  | _ => none

def isPhi (instr : Instr) : Bool := instr.incoming?.isSome

end Instr

/-- How control leaves a block. -/
inductive Terminator where
  | br (target : BlockId)
  | condBr (condition : Operand) (onTrue onFalse : BlockId)
  | ret (value : Option TypedOperand)
  deriving DecidableEq, Repr

/-- Where control can go from a block. -/
def Terminator.successors : Terminator → List BlockId
  | .br target => [target]
  | .condBr _ onTrue onFalse => [onTrue, onFalse]
  | .ret _ => []

/-- A basic block: instructions and a terminator, which is absent while the block is being built. -/
structure Block where
  /-- Absent only for the block that a function starts with. -/
  label : Option String := none
  /-- What the block is for, as a comment. -/
  hint : Option String := none
  instrs : List Instr := []
  terminator : Option Terminator := none
  deriving DecidableEq, Repr

namespace Ir

/-- A parameter of a function. -/
structure Param where
  type : IrType
  name : String
  deriving DecidableEq, Repr

/-- A function. -/
structure Function where
  name : String
  returns : IrType
  params : List Param
  attributes : List String := []
  blocks : List Block
  /-- The blocks in the order in which they stand; a function starts with the first. -/
  layout : List BlockId
  deriving DecidableEq, Repr

namespace Function

/-- The block at a place; a place without block is an empty one. -/
def block (function : Function) (id : BlockId) : Block := function.blocks[id]?.getD {}

/-- The blocks in the order in which they stand. -/
def orderedBlocks (function : Function) : List Block := function.layout.map function.block

/-- The number of instructions in the blocks that stand somewhere. -/
def instrCount (function : Function) : Nat :=
  (function.orderedBlocks.flatMap Block.instrs).length

/-- How a block is called in messages. -/
def blockName (function : Function) (id : BlockId) : String :=
  (function.block id).label.getD "entry"

end Function

/-- The value of a constant symbol. -/
inductive Init where
  | bool (value : Bool)
  | int (value : Int64)
  | float (value : Binary64)
  /-- The bytes of a text. -/
  | bytes (bytes : List UInt8)
  /-- The header of a text whose bytes stand under another symbol. -/
  | header (length : Nat) (data : String)
  deriving DecidableEq, Repr

/-- A constant symbol. -/
structure Global where
  symbol : String
  type : IrType
  init : Init
  deriving DecidableEq, Repr

/-- A named structure type. -/
structure TypeDef where
  name : String
  body : String
  deriving DecidableEq, Repr

/-- A function that is defined elsewhere. -/
structure Declaration where
  symbol : String
  returns : IrType
  params : List IrType
  deriving DecidableEq, Repr

/-- What stands before the constants of a module. -/
inductive Preamble where
  | derived (typeDefs : List TypeDef) (declarations : List Declaration)
  /-- A given text. -/
  | verbatim (text : String)
  deriving DecidableEq, Repr

/-- A module. -/
structure Module where
  triple : String
  preamble : Preamble
  globals : List Global
  functions : List Function
  deriving DecidableEq, Repr

/-- The first function of a name. -/
def Module.function? (module : Module) (name : String) : Option Function :=
  module.functions.find? (·.name = name)

end Ir

end LlvmBackend
