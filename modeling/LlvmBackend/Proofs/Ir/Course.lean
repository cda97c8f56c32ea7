import LlvmBackend.Proofs.Ir.Ssa
import Mathlib.Logic.Function.Basic

/-! # What registers stand for along a walk

A merge gives what the block that control came from has for it. Along a walk a numbered register
therefore stands for a register that no merge defined, or for a constant. `Course.resolved` writes the
moves of a walk with what their operands stand for, and `Safe` says of such moves that the slots on
the stack are torn down soundly.
-/

namespace LlvmBackend

open Ir

/-- What an operand stands for, by what the numbered registers stand for. -/
def Operand.under (value : Nat → Operand) : Operand → Operand
  | .temp n => value n
  | operand => operand

/-- An instruction that reaches storage, with what its operands stand for. -/
def Instr.under (value : Nat → Operand) : Instr → Instr
  | .load dest type source => .load dest type (source.under value)
  | .store stored dest => .store ⟨stored.type, stored.operand.under value⟩ (dest.under value)
  | .call dest returns callee args =>
    .call dest returns callee (args.map fun arg => ⟨arg.type, arg.operand.under value⟩)
  | i => i

/-- An instruction loads from an address, stores there, or passes it to a call. -/
def Instr.Touches (i : Instr) (address : Operand) : Prop :=
  match i with
  | .load _ _ _ | .store _ _ | .call _ _ _ _ => address ∈ i.reads
  | _ => False

namespace Ir

/-- What the numbered registers stand for where control stands. -/
structure Course where
  value : Nat → Operand
  /-- What they stood for when control entered the block. -/
  entering : Nat → Operand
  /-- The block that control came from. -/
  source : Option BlockId

namespace Course

variable (course : Course)

/-- Before a walk each register stands for itself. -/
def start : Course := ⟨.temp, .temp, none⟩

/-- What a merge gives. -/
def merged? (i : Instr) : Option Operand := do
  let incoming ← i.incoming?
  let pair ← incoming.find? fun pair => course.source = some pair.2
  return pair.1.under course.entering

/-- Behind an instruction. What no merge defines stands for itself. -/
def put (i : Instr) : Course :=
  match i.dest with
  | some (.temp n) =>
    { course with value := Function.update course.value n ((course.merged? i).getD (.temp n)) }
  | _ => course

/-- Behind a block. -/
def leave (block : BlockId) : Course := ⟨course.value, course.value, some block⟩

/-- Behind a move. -/
def after : Move → Course
  | .instr _ i => course.put i
  | .jump p _ | .branch p _ _ _ => course.leave p.block
  | .ret _ _ => course

/-- A move with what its operands stand for. -/
def resolve : Move → Move
  | .instr p i => .instr p (i.under course.value)
  | .branch p flag taken target => .branch p (flag.under course.value) taken target
  | move => move

/-- The moves of a walk with what their operands stand for on the way. -/
def resolved : Course → List Move → List Move
  | _, [] => []
  | course, move :: moves => course.resolve move :: (course.after move).resolved moves

end Course

/-! ## Soundness of teardowns -/

/-- A branch whose flag stands for a constant goes where the constant says. -/
def Consistent (moves : List Move) : Prop :=
  ∀ p value taken target, .branch p (.bool value) taken target ∈ moves → taken = value

/-- A move does not define a register. -/
def Move.Keeps (n : Nat) : Move → Prop
  | .instr _ i => i.dest ≠ some (.temp n)
  | _ => True

/-- A move is an instruction that reaches the storage at an address. -/
def Move.Touches (address : Operand) : Move → Prop
  | .instr _ i => i.Touches address
  | _ => False

/-- A slot was allocated right before a call that got it as the place for its result, and not again
    since then. -/
def HoldsResult (n : Nat) (moves : List Move) : Prop :=
  ∃ before p type q returns callee args pointer after,
    moves = before ++ .instr p (.alloca (.temp n) type) ::
      .instr q (.call none returns callee (args ++ [⟨pointer, .temp n⟩])) :: after ∧
    ∀ move ∈ after, move.Keeps n

/-- What some moves loaded from a slot is stored to a variable, by these moves or later. -/
def MovedOut (n : Nat) (moves after : List Move) : Prop :=
  ∃ before p k type rest between q stored name last,
    moves = before ++ .instr p (.load (.temp k) type (.temp n)) :: rest ∧
    rest ++ after = between ++ .instr q (.store ⟨stored, .temp k⟩ (.named name)) :: last ∧
    ∀ move ∈ between, move.Keeps k

/-- The moves of a walk, with what their operands stand for, tear down nothing but the results of
    calls, and these soundly. The hidden spots are those of the teardowns. -/
structure Safe (hidden : Spot → Bool) (moves : List Move) : Prop where
  /-- What is torn down is a slot that holds the result of a call. -/
  owned : ∀ before p i after, moves = before ++ .instr p i :: after → hidden p →
    ∃ n callee pointer, i = .call none .void callee [⟨pointer, .temp n⟩] ∧ HoldsResult n before
  /-- Behind a teardown nothing reaches the slot until it is allocated again: no load, no store and
      no call, hence no other teardown. -/
  disused : ∀ before p i n between move after,
    moves = before ++ .instr p i :: (between ++ move :: after) → hidden p → i.Touches (.temp n) →
    (∀ move ∈ between, move.Keeps n) → ¬ move.Touches (.temp n)
  /-- From one allocation to the next, a slot is not torn down if what it holds is moved out, be it
      behind the next one. -/
  kept : ∀ before between after n, moves = before ++ (between ++ after) →
    (∀ move ∈ between, move.Keeps n) → MovedOut n between after →
    ∀ p i, .instr p i ∈ between → hidden p → ¬ i.Touches (.temp n)

end Ir

end LlvmBackend
