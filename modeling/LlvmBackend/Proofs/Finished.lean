import LlvmBackend.Proofs.Code.Parts
import LlvmBackend.Proofs.Generation

/-! # Finished functions

An emitted function is the last state of the site that its code was built at. Its code stands in it
from its first spot on, behind the slots of variables and what it does first, and control leaves it
only by a return.
-/

namespace LlvmBackend

open Ir Lowering

theorem Code.mem_parts_straight {role : Role} {i : Instr} {instrs : List Instr} :
    .instr role i ∈ (Code.straight instrs).parts ↔ role = .plain ∧ i ∈ instrs := by
  induction instrs with
  | nil => simp [straight, parts]
  | cons first rest ih =>
      rw [straight, List.foldr_cons, ← straight, parts, parts, List.mem_append, ih,
        List.mem_singleton, Part.instr.injEq, List.mem_cons, and_or_left]

/-- Code that returns at its end has one part more. -/
theorem Code.mem_parts_returning {code : Code} {ended : Bool} {value : Option TypedOperand}
    {part : Part} (mem : part ∈ (code.returning ended value).parts) :
    part ∈ code.parts ∨ part = .ends (.ret value) := by
  unfold Code.returning at mem
  split at mem
  · exact .inl mem
  · exact (List.mem_append.mp mem).imp_right List.mem_singleton.mp

theorem Code.parts_sublist_returning (code : Code) (ended : Bool) (value : Option TypedOperand) :
    code.parts.Sublist (code.returning ended value).parts := by
  cases ended with
  | true => exact List.Sublist.refl _
  | false => exact List.sublist_append_left _ _

/-- Instructions one after the other stand where they are found. -/
theorem laid_straight {table : Table} {marks : Spot → Prop} {block n : Nat} {instrs : List Instr}
    (holds : ∀ k i, instrs[k]? = some i → table.Holds ⟨block, n + k⟩ i)
    (unmarked : ∀ k < instrs.length, ¬ marks ⟨block, n + k⟩) :
    Laid table marks ⟨block, n⟩ (.straight instrs) ⟨block, n + instrs.length⟩ := by
  induction instrs generalizing n with
  | nil => exact .skip
  | cons i instrs ih =>
      have rest := @ih (n + 1) (fun k j at_k => by
        have := holds (k + 1) j at_k
        rwa [Nat.add_right_comm, Nat.add_assoc] ) fun k lt => by
          have := unmarked (k + 1) (Nat.succ_lt_succ lt)
          rwa [Nat.add_right_comm, Nat.add_assoc]
      refine .seq (.instr (holds 0 i rfl) (iff_of_false (unmarked 0 (Nat.succ_pos _)) (by simp))) ?_
      rw [List.length_cons, Nat.add_comm instrs.length, ← Nat.add_assoc]
      exact rest

/-- A function as its site was when nothing was left to lower. -/
structure Finished (start : Start) (function : Function) (slots : List Instr) (code : Code)
    (site : Site) : Prop where
  named : ∀ slot ∈ slots, ∃ name type, slot = .alloca (.named name) type
  plain : Start.Plain (slots ++ start.before)
  build : Build none (start.site slots) code site
  closed : ¬ site.Open
  slots : site.slots = slots
  block : function.block = site.table
  layout : function.layout = site.layout
  size : function.blocks.length = site.size
  params : function.params = start.header.params

theorem Starts.plain {types : Registry} {entry : String} {source : Tree.Function} {start : Start}
    (starts : Starts types entry source start) : Start.Plain start.before := by
  cases starts with
  | entry => exact Start.plain_prologue types _
  | function => simp [Start.Plain, Start.ofOpening]

theorem Emitted.finished {types : Registry} {signatures : SignatureTable} {start : Start}
    {body : List Stmt} {function : Function} (emitted : Emitted types signatures start body function)
    (plain : Start.Plain start.before) : ∃ names ended code slots site,
      Translation.Lowers ⟨types, signatures, start.outcome⟩ (.suite body) start.names names ended
        code ∧
      Finished start function slots (code.returning ended start.atEnd) site := by
  obtain ⟨slots, site, lowers, named, build, closed, eq, block, layout, size, header⟩ := emitted
  have plain : Start.Plain (slots ++ start.before) := fun instr mem =>
    (List.mem_append.mp mem).elim (Start.plain_slots named instr) (plain instr)
  refine ⟨_, _, _, slots, site, lowers, named, plain, build, closed, eq, block, layout, size, ?_⟩
  simp only [Prod.mk.injEq] at header
  exact header.2.2.1

namespace Finished

variable {start : Start} {function : Function} {slots : List Instr} {code : Code} {site : Site}
  (finished : Finished start function slots code site)
include finished

theorem built : Built none (start.site slots) site :=
  finished.build.built (Start.site_valid finished.plain) Start.site_isOpen (by simp)

theorem valid : site.Valid := finished.built.grows.after

theorem entry : function.entry = 0 := by
  simp [Function.entry, finished.layout, Site.layout]

theorem placed_iff (id : BlockId) : id ∈ function.layout ↔ id < site.size := by
  rw [finished.layout]
  refine ⟨finished.valid.placed_lt id, fun lt => ?_⟩
  rcases Nat.eq_zero_or_pos id with rfl | pos
  · exact List.mem_cons_self
  · exact finished.built.placed id pos lt

/-- All code of a function stands in it from its first spot on. -/
theorem laid : ∃ marks, ∀ q, Laid function.table marks (.start function.entry)
    (.seq (.straight (slots ++ start.before)) code) q := by
  have valid := Start.site_valid finished.plain
  obtain ⟨released, lies⟩ := finished.build.lies valid Start.site_isOpen (by simp)
  refine ⟨released, fun q => ?_⟩
  have here : (start.site slots).table 0 = { instrs := slots ++ start.before } := rfl
  have spot : (start.site slots).spot = ⟨0, 0 + (slots ++ start.before).length⟩ := by
    rw [Nat.zero_add]
    rfl
  have first : Laid function.table released ⟨0, 0⟩ (.straight (slots ++ start.before))
      (start.site slots).spot := by
    rw [spot]
    refine laid_straight (fun k i at_k => ?_) fun k lt => ?_
    · have holds : (start.site slots).table.Holds ⟨0, 0 + k⟩ i := by
        rw [Table.Holds, here, Nat.zero_add]
        exact at_k
      rw [Function.table, finished.block]
      exact holds.le finished.built.grows.table
    · intro mark
      refine (lies.region _ mark).2 (.inl ?_)
      rw [here, Nat.zero_add]
      exact lt
  rw [finished.entry]
  refine .seq first (lies.laid _ _ q ?_ (fun _ _ _ => Iff.rfl) fun isOpen => ?_)
  · rw [Function.table, finished.block]
    exact .refl _
  · exact absurd isOpen finished.closed

/-- The instructions of a function are those of its code. -/
theorem exists_part {id : BlockId} {i : Instr} (mem : i ∈ (function.block id).instrs) :
    ∃ role, .instr role i ∈ (Code.seq (.straight (slots ++ start.before)) code).parts := by
  rw [finished.block] at mem
  rcases finished.build.adds.instrs id i mem with ⟨id', mem⟩ | ⟨role, mem⟩
  · have : i ∈ slots ++ start.before := by
      simp only [Start.site] at mem
      split at mem
      · exact mem
      · cases mem
    exact ⟨.plain, List.mem_append_left _ (Code.mem_parts_straight.mpr ⟨rfl, this⟩)⟩
  · exact ⟨role, List.mem_append_right _ mem⟩

/-- The terminators of a function are those of its code. -/
theorem ends_mem_parts {id : BlockId} {terminator : Terminator}
    (eq : (function.block id).terminator = some terminator) :
    .ends terminator ∈ (Code.seq (.straight (slots ++ start.before)) code).parts := by
  rw [finished.block] at eq
  rcases finished.build.adds.ends id terminator eq with ⟨id', eq⟩ | mem
  · simp only [Start.site] at eq
    split at eq <;> cases eq
  · exact List.mem_append_right _ mem

/-- Control leaves the code of a function only by a return. -/
theorem returns {acts : List Act} {stop : Option Spot}
    (exec : Exec (.start function.entry) (.seq (.straight (slots ++ start.before)) code) acts stop) :
    stop = none := by
  obtain ⟨marks, laid⟩ := finished.laid
  cases stop with
  | none => rfl
  | some r =>
      have here := (exec.walk (laid (.start 0))).2 r rfl
      have there := (exec.walk (laid (.start 1))).2 r rfl
      cases here.symm.trans there

end Finished

end LlvmBackend
