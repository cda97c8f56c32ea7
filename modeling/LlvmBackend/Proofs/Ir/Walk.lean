import LlvmBackend.Ir

/-! # Walks through a function

Control stands at a spot: a block and the number of its instructions that were carried out. A walk
follows the graph and takes either side of a branch; whether a flag can have that value is not asked.
-/

namespace LlvmBackend.Ir

/-- The blocks of a function by their places. -/
abbrev Table := BlockId → Block

/-- Where control stands: before an instruction of a block, or before its terminator. -/
structure Spot where
  block : BlockId
  index : Nat
  deriving DecidableEq, Repr

namespace Spot

/-- The first spot of a block. -/
def start (block : BlockId) : Spot := ⟨block, 0⟩

/-- The spot behind one instruction. -/
def next (spot : Spot) : Spot := ⟨spot.block, spot.index + 1⟩

@[simp] theorem start_block (block : BlockId) : (start block).block = block := rfl

@[simp] theorem start_index (block : BlockId) : (start block).index = 0 := rfl

@[simp] theorem next_block (spot : Spot) : spot.next.block = spot.block := rfl

@[simp] theorem next_index (spot : Spot) : spot.next.index = spot.index + 1 := rfl

end Spot

namespace Table

/-- An instruction stands at a spot. -/
def Holds (table : Table) (spot : Spot) (instr : Instr) : Prop :=
  (table spot.block).instrs[spot.index]? = some instr

/-- A terminator stands at a spot, behind all instructions of the block. -/
def Ends (table : Table) (spot : Spot) (terminator : Terminator) : Prop :=
  spot.index = (table spot.block).instrs.length ∧
    (table spot.block).terminator = some terminator

variable {table : Table} {spot : Spot}

theorem Holds.index_lt {instr : Instr} (h : table.Holds spot instr) :
    spot.index < (table spot.block).instrs.length :=
  (List.getElem?_eq_some_iff.mp h).1

theorem Holds.unique {first second : Instr} (h₁ : table.Holds spot first)
    (h₂ : table.Holds spot second) : first = second :=
  Option.some.inj (h₁.symm.trans h₂)

theorem Ends.unique {first second : Terminator} (h₁ : table.Ends spot first)
    (h₂ : table.Ends spot second) : first = second :=
  Option.some.inj (h₁.2.symm.trans h₂.2)

/-- A spot does not stand before an instruction and a terminator at once. -/
theorem Holds.not_ends {instr : Instr} {terminator : Terminator}
    (h : table.Holds spot instr) : ¬ table.Ends spot terminator := by
  intro ends
  have := h.index_lt
  have := ends.1
  omega

end Table

/-- One move of control, from the spot it starts at. -/
inductive Move where
  | instr (spot : Spot) (instr : Instr)
  | jump (spot : Spot) (target : BlockId)
  /-- The side of a branch that a value of its flag stands for. -/
  | branch (spot : Spot) (flag : Operand) (taken : Bool) (target : BlockId)
  | ret (spot : Spot) (value : Option TypedOperand)
  deriving DecidableEq, Repr

/-- The spot a move starts at. -/
def Move.spot : Move → Spot
  | .instr spot _ | .jump spot _ | .branch spot _ _ _ | .ret spot _ => spot

/-- Control moves from a spot to another one, or leaves the function. -/
inductive Step (table : Table) : Spot → Move → Option Spot → Prop where
  | instr : table.Holds p i → Step table p (.instr p i) (some p.next)
  | jump : table.Ends p (.br target) → Step table p (.jump p target) (some (.start target))
  | onTrue :
      table.Ends p (.condBr flag onTrue onFalse) →
      Step table p (.branch p flag true onTrue) (some (.start onTrue))
  | onFalse :
      table.Ends p (.condBr flag onTrue onFalse) →
      Step table p (.branch p flag false onFalse) (some (.start onFalse))
  | ret : table.Ends p (.ret value) → Step table p (.ret p value) none

/-- A walk from where control stands to where it stands then; `none` is outside the function. -/
inductive Walk (table : Table) : Option Spot → List Move → Option Spot → Prop where
  | nil : Walk table p [] p
  | cons : Step table p m q → Walk table q ms r → Walk table (some p) (m :: ms) r

/-- The block that a function starts with. -/
def Function.entry (function : Function) : BlockId := function.layout.headD 0

/-- The blocks of a function. -/
abbrev Function.table (function : Function) : Table := function.block

/-- A walk from the start of a function. -/
def Function.Walk (function : Function) (moves : List Move) (stop : Option Spot) : Prop :=
  Ir.Walk function.table (some (.start function.entry)) moves stop

namespace Walk

variable {table : Table} {p : Spot} {moves : List Move} {stop : Option Spot}

theorem single (h : Step table p m q) : Walk table (some p) [m] q := .cons h .nil

theorem append {start middle : Option Spot} {rest : List Move} (h₁ : Walk table start moves middle)
    (h₂ : Walk table middle rest stop) : Walk table start (moves ++ rest) stop := by
  induction h₁ with
  | nil => exact h₂
  | cons step _ ih => exact .cons step (ih h₂)

/-- Nothing happens outside the function. -/
theorem eq_of_none (h : Walk table none moves stop) : moves = [] ∧ stop = none := by
  cases h
  exact ⟨rfl, rfl⟩

/-- What stands at a spot decides how a walk goes on from there. -/
theorem through_instr (holds : table.Holds p i) (h : Walk table (some p) moves stop) :
    (moves = [] ∧ stop = some p) ∨
      ∃ rest, moves = .instr p i :: rest ∧ Walk table (some p.next) rest stop := by
  cases h with
  | nil => exact .inl ⟨rfl, rfl⟩
  | cons step rest =>
      cases step with
      | instr found => exact .inr ⟨_, by rw [holds.unique found], rest⟩
      | jump ends | onTrue ends | onFalse ends | ret ends => exact absurd ends holds.not_ends

theorem through_jump (ends : table.Ends p (.br target)) (h : Walk table (some p) moves stop) :
    (moves = [] ∧ stop = some p) ∨
      ∃ rest, moves = .jump p target :: rest ∧ Walk table (some (.start target)) rest stop := by
  cases h with
  | nil => exact .inl ⟨rfl, rfl⟩
  | cons step rest =>
      cases step with
      | instr found => exact absurd ends found.not_ends
      | jump found =>
          cases ends.unique found
          exact .inr ⟨_, rfl, rest⟩
      | onTrue found | onFalse found | ret found => cases ends.unique found

theorem through_branch (ends : table.Ends p (.condBr flag onTrue onFalse))
    (h : Walk table (some p) moves stop) :
    (moves = [] ∧ stop = some p) ∨
      (∃ rest, moves = .branch p flag true onTrue :: rest ∧
        Walk table (some (.start onTrue)) rest stop) ∨
      ∃ rest, moves = .branch p flag false onFalse :: rest ∧
        Walk table (some (.start onFalse)) rest stop := by
  cases h with
  | nil => exact .inl ⟨rfl, rfl⟩
  | cons step rest =>
      cases step with
      | instr found => exact absurd ends found.not_ends
      | onTrue found =>
          cases ends.unique found
          exact .inr (.inl ⟨_, rfl, rest⟩)
      | onFalse found =>
          cases ends.unique found
          exact .inr (.inr ⟨_, rfl, rest⟩)
      | jump found | ret found => cases ends.unique found

theorem through_ret (ends : table.Ends p (.ret value)) (h : Walk table (some p) moves stop) :
    (moves = [] ∧ stop = some p) ∨ (moves = [.ret p value] ∧ stop = none) := by
  cases h with
  | nil => exact .inl ⟨rfl, rfl⟩
  | cons step rest =>
      cases step with
      | instr found => exact absurd ends found.not_ends
      | ret found =>
          cases ends.unique found
          obtain ⟨rfl, rfl⟩ := rest.eq_of_none
          exact .inr ⟨rfl, rfl⟩
      | jump found | onTrue found | onFalse found => cases ends.unique found

/-- What a walk carries out stands where it does so. -/
theorem holds_of_mem {start : Option Spot} (h : Walk table start moves stop)
    (mem : .instr q i ∈ moves) : table.Holds q i := by
  induction h with
  | nil => cases mem
  | cons step _ ih =>
      rcases List.mem_cons.mp mem with eq | mem
      · subst eq
        cases step with
        | instr holds => exact holds
      · exact ih mem

/-- From the start of a block control gets to each of its instructions. -/
theorem along {block n : Nat} (le : n ≤ (table block).instrs.length) :
    ∃ moves, Walk table (some (.start block)) moves (some ⟨block, n⟩) ∧
      ∀ move ∈ moves, ∃ q i, move = .instr q i := by
  induction n with
  | zero => exact ⟨[], .nil, by simp⟩
  | succ n ih =>
      obtain ⟨moves, walk, instrs⟩ := ih (Nat.le_of_succ_le le)
      have holds : table.Holds ⟨block, n⟩ ((table block).instrs.get ⟨n, le⟩) :=
        List.getElem?_eq_getElem le
      refine ⟨moves ++ [.instr ⟨block, n⟩ _], walk.append (.single (.instr holds)), ?_⟩
      simpa [or_imp, forall_and] using instrs

end Walk

end LlvmBackend.Ir
