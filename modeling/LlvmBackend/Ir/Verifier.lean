import LlvmBackend.Ir

/-!
# Checking intermediate code

The faults in the structure of a function: blocks that stand nowhere or have no terminator, jumps
that leave the function or enter it again, and labels, temporaries and named registers that are not
defined once and in order.
-/

namespace LlvmBackend.Ir

/-- A fault of a function. Blocks go by their labels. -/
inductive Fault where
  | emptyFunction (function : String)
  | missingTerminator (function block : String)
  | unplacedBlock (function block : String)
  | unknownTarget (function block : String)
  | entryTargeted (function block : String)
  | duplicateLabel (function label : String)
  | misplacedPhi (function block : String)
  | phiUnknownPredecessor (function block incoming : String)
  | nonSequentialTemp (function : String) (expected found : Nat)
  | duplicateLocal (function name : String)
  deriving DecidableEq, Repr

/-- The message about a fault. -/
def Fault.message : Fault → String
  | .emptyFunction function => s!"`{function}`: function has no blocks"
  | .missingTerminator function block => s!"`{function}`: block `{block}` has no terminator"
  | .unplacedBlock function block =>
    s!"`{function}`: block `{block}` was created but never placed"
  | .unknownTarget function block =>
    s!"`{function}`: block `{block}` refers to a block outside the function layout"
  | .entryTargeted function block =>
    s!"`{function}`: block `{block}` branches to the entry block"
  | .duplicateLabel function label => s!"`{function}`: label `{label}` is defined twice"
  | .misplacedPhi function block =>
    s!"`{function}`: phi in block `{block}` follows a non-phi instruction"
  | .phiUnknownPredecessor function block incoming =>
    s!"`{function}`: phi in block `{block}` names `{incoming}`, which does not branch there"
  | .nonSequentialTemp function expected found =>
    s!"`{function}`: expected temporary %{expected}, found %{found}"
  | .duplicateLocal function name => s!"`{function}`: local `%{name}` is defined twice"

namespace Function

variable (function : Function)

/-- The faults of a jump from a block. -/
def targetFaults (entry source target : BlockId) : List Fault :=
  if target = entry then [.entryTargeted function.name (function.blockName source)]
  else if target ∈ function.layout then []
  else [.unknownTarget function.name (function.blockName source)]

/-- Whether control can go from one block straight to another. -/
def branches (source target : BlockId) : Bool :=
  match (function.block source).terminator with
  | some terminator => terminator.successors.contains target
  | none => false

/-- The fault of one source of a merge in a block. -/
def incomingFaults (id source : BlockId) : List Fault :=
  if source ∉ function.layout then [.unknownTarget function.name (function.blockName id)]
  else if function.branches source id then []
  else [.phiUnknownPredecessor function.name (function.blockName id) (function.blockName source)]

/-- What a check knows of the blocks before: the labels and named registers that are taken, and the
    number that the next temporary should have. -/
structure Seen where
  labels : List String := []
  locals : List String
  nextTemp : Nat := 1

/-- Checks what an instruction defines. -/
def checkDest (seen : Seen) : Option Operand → List Fault × Seen
  | some (.temp n) =>
    (if n = seen.nextTemp then [] else [.nonSequentialTemp function.name seen.nextTemp n],
      { seen with nextTemp := n + 1 })
  | some (.named name) =>
    if name ∈ seen.locals then ([.duplicateLocal function.name name], seen)
    else ([], { seen with locals := name :: seen.locals })
  | _ => ([], seen)

/-- Checks that merges stand first in their block and name its predecessors. -/
def phiFaults (id : BlockId) (afterOther : Bool) (instr : Instr) : List Fault :=
  match instr.incoming? with
  | some incoming =>
    (if afterOther then [.misplacedPhi function.name (function.blockName id)] else []) ++
      incoming.flatMap fun (_, source) => function.incomingFaults id source
  | none => []

/-- Checks the instructions of a block; `afterOther` says whether one that is no merge came. -/
def checkInstrs (id : BlockId) (afterOther : Bool) (seen : Seen) :
    List Instr → List Fault × Seen
  | [] => ([], seen)
  | instr :: rest =>
    let (destFaults, seen) := function.checkDest seen instr.dest
    let (restFaults, seen) := checkInstrs id (afterOther || !instr.isPhi) seen rest
    (function.phiFaults id afterOther instr ++ destFaults ++ restFaults, seen)

/-- Checks the label of a block. -/
def checkLabel (seen : Seen) : Option String → List Fault × Seen
  | some label =>
    if label ∈ seen.labels then ([.duplicateLabel function.name label], seen)
    else ([], { seen with labels := label :: seen.labels })
  | none => ([], seen)

/-- Checks the terminator of a block. -/
def terminatorFaults (entry id : BlockId) : Option Terminator → List Fault
  | none => [.missingTerminator function.name (function.blockName id)]
  | some terminator => terminator.successors.flatMap (function.targetFaults entry id)

/-- Checks blocks in the order in which they stand. -/
def checkBlocks (entry : BlockId) (seen : Seen) : List BlockId → List Fault
  | [] => []
  | id :: rest =>
    let block := function.block id
    let (labelFaults, seen) := function.checkLabel seen block.label
    let (instrFaults, seen) := function.checkInstrs id false seen block.instrs
    labelFaults ++ instrFaults ++ function.terminatorFaults entry id block.terminator ++
      checkBlocks entry seen rest

/-- The blocks that stand nowhere. -/
def unplacedFaults : List Fault :=
  (List.range function.blocks.length).filterMap fun id =>
    if id ∈ function.layout then none
    else some (.unplacedBlock function.name (function.blockName id))

/-- The faults of a function, in the order of its blocks. -/
def faults : List Fault :=
  match function.layout with
  | [] => [.emptyFunction function.name]
  | entry :: _ =>
    function.unplacedFaults ++
      function.checkBlocks entry { locals := function.params.map Param.name } function.layout

end Function

/-- The faults of a module, function by function. -/
def Module.faults (module : Module) : List Fault := module.functions.flatMap Function.faults

end LlvmBackend.Ir
