import LlvmBackend.Lowering.Function
import LlvmBackend.Proofs.Build.Placement
import LlvmBackend.Proofs.Translation

/-! # Emitted functions

How a function starts, and what stands in it: the slots of variables, what the entry of a module
does first, the code of the body and, unless the body left the function, a return.
-/

namespace LlvmBackend

open Ir Lowering

/-- What is known before the body of a function is lowered. -/
structure Start where
  /-- The function without its code. -/
  header : Builder
  names : Names
  outcome : Outcome
  /-- The instructions before the code of the body. -/
  before : List Instr
  /-- What is returned at the end of the body. -/
  atEnd : Option TypedOperand

namespace Start

/-- The site at which the body is built, with the slots of variables before everything. -/
def site (start : Start) (slots : List Instr) : Site where
  table := fun id => if id = 0 then { instrs := slots ++ start.before } else {}
  size := 1
  entered := []
  current := 0
  nextTemp := 1
  nextLabel := 1
  used := start.names.used
  slots := []

/-- A function that can be called. -/
def ofOpening (source : Tree.Function) (returns : TypeId) (opening : Opening) : Start where
  header := { name := source.name, returns := .void, params := opening.params }
  names := ⟨opening.scopes.push, [], opening.supply.used⟩
  outcome := .result returns
  before := []
  atEnd := none

/-- What the entry does before its body. -/
def prologue (types : Registry) (arguments : TypeId) : List Instr :=
  let text : IrType := ⟨types.ir Registry.string⟩
  let texts : IrType := ⟨types.ir arguments⟩
  [.alloca (.named "args$") texts,
   .call none .void argvSymbol
    [⟨.i32, .named "argc"⟩, ⟨argvType, .named "argv"⟩, ⟨texts.ptr, .named "args$"⟩],
   .load (.named "a0.p") texts (.named "args$"),
   .elementPtr (.named "name") text (.named "a0.p") [⟨.i64, .int 0⟩],
   .elementPtr (.named "a1.p") text (.named "a0.p") [⟨.i64, .int 1⟩],
   .alloca (.named "args") texts,
   .store ⟨texts, .named "a1.p"⟩ (.named "args")]

/-- The entry of a module. -/
def ofEntry (types : Registry) (arguments : TypeId) : Start where
  header :=
    { name := entrySymbol, returns := .i32, params := [⟨.i32, "argc"⟩, ⟨argvType, "argv"⟩]
      attributes := ["nounwind", "ssp"] }
  names :=
    { scopes := (((Scopes.empty.define "name" (.stable Registry.string (.named "name"))).define
        "args" (.stable arguments (.named "args"))).push)
      slots := []
      used := (entryNames.foldl Supply.reserve {}).used }
  outcome := .status
  before := prologue types arguments
  atEnd := some success

end Start

/-- How a function of a module starts. -/
inductive Starts (types : Registry) (entry : String) (source : Tree.Function) : Start → Prop where
  | entry :
      source.name = entry →
      types.resolve argumentsType.name = .ok arguments →
      Starts types entry source (.ofEntry types arguments)
  | function :
      source.name ≠ entry →
      types.resolve source.returns = .ok returns →
      source.params.foldlM (Opening.addParam types source.name) {} = .ok opening →
      Starts types entry source (.ofOpening source returns (opening.addResult types returns))

namespace Code

/-- Instructions one after the other. -/
def straight (instrs : List Instr) : Code := instrs.foldr (fun i code => .seq (.instr .plain i) code) .skip

/-- Code that returns unless it left the function. -/
def returning (code : Code) (ended : Bool) (value : Option TypedOperand) : Code :=
  if ended then code else .seq code (.ret value)

end Code

/-- A function was built from a start and the statements of a body. -/
inductive Emitted (types : Registry) (signatures : SignatureTable) (start : Start)
    (body : List Stmt) (function : Function) : Prop where
  | intro (slots : List Instr) (site : Site) :
      Translation.Lowers ⟨types, signatures, start.outcome⟩ (.suite body) start.names names ended
        code →
      (∀ slot ∈ slots, ∃ name type, slot = .alloca (.named name) type) →
      Build none (start.site slots) (code.returning ended start.atEnd) site →
      ¬ site.Open →
      site.slots = slots →
      function.block = site.table →
      function.layout = site.layout →
      function.blocks.length = site.size →
      (function.name, function.returns, function.params, function.attributes) =
        (start.header.name, start.header.returns, start.header.params, start.header.attributes) →
      Emitted types signatures start body function

/-- A function of a module is lowered to a function of intermediate code. -/
def Renders (types : Registry) (signatures : SignatureTable) (entry : String)
    (source : Tree.Function) (function : Function) : Prop :=
  ∃ start, Starts types entry source start ∧ Emitted types signatures start source.body function

end LlvmBackend
