import LlvmBackend.Proofs.Ir.Walk
import LlvmBackend.Proofs.Ir.WellFormed
import Mathlib.Data.List.Pairwise

/-! # Static single assignment

In a function of this form a register is defined once, and control passes its definition before it
gets to where the register is read. A merge reads at the ends of the blocks that control comes from.
-/

namespace LlvmBackend

/-- A parameter, a slot or a temporary, but no constant. -/
def Operand.isRegister : Operand → Bool
  | .temp _ | .named _ => true
  | .symbol _ | .bool _ | .int _ => false

/-- What an instruction reads. -/
def Instr.reads : Instr → List Operand
  | .alloca _ _ => []
  | .load _ _ source => [source]
  | .store value dest => [value.operand, dest]
  | .call _ _ _ args => args.map TypedOperand.operand
  | .elementPtr _ _ base indices => base :: indices.map TypedOperand.operand
  | .select _ condition onTrue onFalse => [condition, onTrue.operand, onFalse.operand]
  | .phi _ _ incoming => incoming.map Prod.fst

theorem Instr.reads_of_merge {i : Instr} {incoming : List (Operand × BlockId)}
    (merges : i.incoming? = some incoming) : i.reads = incoming.map Prod.fst := by
  cases i <;> simp_all [incoming?, reads]

/-- What a terminator reads. -/
def Terminator.reads : Terminator → List Operand
  | .br _ => []
  | .condBr condition _ _ => [condition]
  | .ret value => value.toList.map TypedOperand.operand

namespace Ir.Function

variable (function : Function)

/-- A register is read, and it must be there when control stands at the spot. -/
inductive Reads : Spot → Operand → Prop where
  | instr :
      function.table.Holds p i →
      i.incoming? = none →
      operand ∈ i.reads →
      Reads p operand
  | terminator :
      function.table.Ends p terminator →
      operand ∈ terminator.reads →
      Reads p operand
  | phi :
      function.table.Holds p i →
      i.incoming? = some incoming →
      (operand, source) ∈ incoming →
      Reads ⟨source, (function.block source).instrs.length⟩ operand

/-- Control passes a spot on every way from the start of the function to another one. -/
def Dominates (place use : Spot) : Prop :=
  ∀ moves, function.Walk moves (some use) → place ∈ moves.map Move.spot

/-- A function is in static single assignment form. -/
structure Ssa : Prop where
  defined : ∀ use register, function.Reads use register → register.isRegister →
    (∃ param ∈ function.params, register = .named param.name) ∨
      ∃ place i, function.table.Holds place i ∧ i.dest = some register ∧
        function.Dominates place use
  /-- A merge names each block that control can come from once, and no others. -/
  merges : ∀ id, ∀ i ∈ (function.block id).instrs, ∀ incoming ∈ i.incoming?,
    (incoming.map Prod.snd).Nodup ∧ ∀ source, source ∈ incoming.map Prod.snd ↔
      source ∈ function.layout ∧ id ∈ (function.block source).successors

/-! ## Registers are defined once -/

variable {function}

theorem WellFormed.mem_of_holds (wellFormed : function.WellFormed) {p : Spot} {i : Instr}
    (holds : function.table.Holds p i) : p.block ∈ function.layout := by
  by_contra new
  have le : function.blocks.length ≤ p.block :=
    Nat.le_of_not_lt fun lt => new (wellFormed.placed p.block lt)
  simp [Table.Holds, Function.table, Function.block, List.getElem?_eq_none le] at holds

/-- What instructions have at most once tells their places. -/
theorem index_unique {α : Type} {instrs : List Instr} {part : Instr → Option α} {a b : Nat}
    {i j : Instr} {x : α} (nodup : (instrs.filterMap part).Nodup) (at_a : instrs[a]? = some i)
    (at_b : instrs[b]? = some j) (eq_i : part i = some x) (eq_j : part j = some x) : a = b := by
  have apart := List.pairwise_iff_getElem.mp (List.pairwise_filterMap.mp nodup)
  obtain ⟨lt_a, rfl⟩ := List.getElem?_eq_some_iff.mp at_a
  obtain ⟨lt_b, rfl⟩ := List.getElem?_eq_some_iff.mp at_b
  rcases Nat.lt_trichotomy a b with lt | eq | lt
  · exact absurd rfl (apart a b lt_a lt_b lt x eq_i x eq_j)
  · exact eq
  · exact absurd rfl (apart b a lt_b lt_a lt x eq_j x eq_i)

theorem spot_unique {α : Type} {part : Instr → Option α} {p q : Spot} {i j : Instr} {x : α}
    (nodup : (function.instrs.filterMap part).Nodup)
    (mem_p : p.block ∈ function.layout) (mem_q : q.block ∈ function.layout)
    (holds_p : function.table.Holds p i) (holds_q : function.table.Holds q j)
    (eq_i : part i = some x) (eq_j : part j = some x) : p = q := by
  rw [instrs, List.filterMap_flatMap, List.nodup_flatMap] at nodup
  obtain ⟨within, apart⟩ := nodup
  have mem_i : x ∈ (function.block p.block).instrs.filterMap part :=
    List.mem_filterMap.mpr ⟨i, List.mem_of_getElem? holds_p, eq_i⟩
  have mem_j : x ∈ (function.block q.block).instrs.filterMap part :=
    List.mem_filterMap.mpr ⟨j, List.mem_of_getElem? holds_q, eq_j⟩
  have block : p.block = q.block := by
    by_contra ne
    have : Std.Symm (Function.onFun List.Disjoint fun id =>
        (function.block id).instrs.filterMap part) :=
      ⟨fun _ _ apart _ mem mem' => apart mem' mem⟩
    exact apart.forall mem_p mem_q ne mem_i mem_j
  have index : p.index = q.index := by
    rw [Table.Holds, ← block] at holds_q
    exact index_unique (within p.block mem_p) holds_p holds_q eq_i eq_j
  cases p
  cases q
  simp_all

/-- No two instructions define the same register. -/
theorem WellFormed.place_unique (wellFormed : function.WellFormed) {p q : Spot} {i j : Instr}
    {register : Operand} (holds_p : function.table.Holds p i) (holds_q : function.table.Holds q j)
    (dest_i : i.dest = some register) (dest_j : j.dest = some register)
    (isRegister : register.isRegister) : p = q := by
  have mem_p := wellFormed.mem_of_holds holds_p
  have mem_q := wellFormed.mem_of_holds holds_q
  cases register with
  | temp n =>
      have nodup : (function.instrs.filterMap Instr.number?).Nodup := by
        rw [wellFormed.temps]
        exact List.nodup_range' 1
      exact spot_unique nodup mem_p mem_q holds_p holds_q (by rw [Instr.number?, dest_i]; rfl)
        (by rw [Instr.number?, dest_j]; rfl)
  | named name =>
      exact spot_unique wellFormed.locals.1 mem_p mem_q holds_p holds_q
        (by rw [Instr.localName?, dest_i]) (by rw [Instr.localName?, dest_j])
  | symbol name | bool value | int value => cases isRegister

end Ir.Function

end LlvmBackend
