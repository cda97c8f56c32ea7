import LlvmBackend.Proofs.Flags
import LlvmBackend.Proofs.Translation.Storage

/-! # Storage that functions write to

A function writes to storage that it allocates itself, and its result to where its caller says. It
writes to no other parameter, to no constant of its module and to nothing whose address it was given
or computed, as the elements of containers are.
-/

namespace LlvmBackend

open Ir Lowering Reference

/-- Storage that a function allocates. It is no parameter and no constant, and it is not defined by
    anything else, as addresses are that the function loads or computes. -/
structure Ir.Function.Allocates (function : Function) (storage : Operand) : Prop where
  register : storage.isRegister
  allocated : ∃ type, .alloca storage type ∈ function.instrs
  alone : ∀ i ∈ function.instrs, i.dest = some storage → ∃ type, i = .alloca storage type
  params : ∀ param ∈ function.params, storage ≠ .named param.name

/-- What a function is to give to its caller. -/
def Reference.outcome (types : Registry) (entry : String) (source : Tree.Function) : Outcome :=
  if source.name = entry then .status else .result (typeNamed types source.returns)

/-- A function writes to storage that it allocates, and its result to where it is told by its
    parameter. -/
structure Ir.Function.KeepsToStorage (env : Surroundings) (function : Function) : Prop where
  writes : ∀ i ∈ function.instrs, ∃ role, Writes env function.Allocates role i
  result : ∀ returns, env.outcome = .result returns → returns ≠ Registry.void →
    ⟨.ptr ⟨env.types.ir returns⟩, resultName⟩ ∈ function.params

/-! ## Functions -/

namespace Starts

variable {types : Registry} {entry : String} {source : Tree.Function} {start : Start}

theorem outcome_eq (starts : Starts types entry source start) :
    start.outcome = outcome types entry source := by
  cases starts with
  | entry named => exact (if_pos named).symm
  | function other resolved =>
      rw [outcome, if_neg other, typeNamed, resolved]
      rfl

theorem slots_eq_nil (starts : Starts types entry source start) : start.names.slots = [] := by
  cases starts <;> rfl

theorem result_mem_params (starts : Starts types entry source start) {returns : TypeId}
    (outcome : start.outcome = .result returns) (notVoid : returns ≠ Registry.void) :
    ⟨.ptr ⟨types.ir returns⟩, resultName⟩ ∈ start.header.params := by
  cases starts with
  | entry => cases outcome
  | function =>
      cases outcome
      simp [Start.ofOpening, Opening.addResult, notVoid]

/-- Before its body a function writes at most to what it allocates there, for the arguments of the
    process. -/
theorem writes_before {signatures : SignatureTable} {owns : Operand → Prop} (starts : Starts types entry source start)
    (owned : ∀ slot type, .alloca slot type ∈ start.before → owns slot) :
    ∀ i ∈ start.before, Writes ⟨types, signatures, start.outcome⟩ owns .plain i := by
  cases starts with
  | @entry arguments =>
      have slots : ∀ slot ∈ [Operand.named "args$", .named "args"], owns slot := by
        intro slot mem
        refine owned slot ⟨types.ir arguments⟩ ?_
        rcases List.mem_pair.mp mem with rfl | rfl <;> simp [Start.ofEntry, Start.prologue]
      simp only [Start.ofEntry, Start.prologue, List.forall_mem_cons, List.not_mem_nil,
        false_implies, implies_true, and_true] at slots ⊢
      exact ⟨.nothing rfl rfl, .decodes slots.1, .nothing rfl rfl, .nothing rfl rfl, .nothing rfl rfl,
        .nothing rfl rfl, .value (by simp) slots.2⟩
  | function => simp [Start.ofOpening]

end Starts

namespace Finished

variable {types : Registry} {entry : String} {source : Tree.Function} {start : Start}
  {function : Function} {slots : List Instr} {code : Code} {site : Site}
  (finished : Finished start function slots code site) (starts : Starts types entry source start)
include finished starts

theorem allocates {role : Role} {storage : Operand} {type : IrType}
    (mem : .instr role (.alloca storage type) ∈
      (Code.seq (.straight (slots ++ start.before)) code).parts) :
    function.Allocates storage := by
  have wellFormed := finished.wellFormed (Start.reserved_of_starts starts)
  have mem := finished.mem_instrs wellFormed mem
  have register := finished.registers starts.registers _ mem storage rfl
  refine ⟨register, ⟨type, mem⟩, fun i there dest => ⟨type, ?_⟩, ?_⟩
  · exact Function.instr_unique wellFormed there mem dest rfl register
  · rintro param there rfl
    exact Function.param_ne_dest wellFormed there mem rfl

/-- All that the code of a function allocates is allocated in the function. -/
theorem owned : code.Owned function.Allocates := by
  intro part mem slot allocates
  cases part with
  | instr role i =>
      cases i <;> cases allocates
      exact finished.allocates starts (List.mem_append_right _ mem)
  | slot name type =>
      cases allocates
      have hoisted : .alloca (.named name) type ∈ slots := by
        rw [← finished.slots, finished.build.mem_slots, Code.slots_eq]
        exact .inr (List.mem_filterMap.mpr ⟨_, mem, rfl⟩)
      exact finished.allocates starts (List.mem_append_left _
        (Code.mem_parts_straight.mpr ⟨rfl, List.mem_append_left _ hoisted⟩))
  | read | ends => cases allocates

end Finished

/-- What the code of a function writes to is storage of the function. -/
theorem Finished.writes {types : Registry} {signatures : SignatureTable} {entry : String}
    {source : Tree.Function} {start : Start} {function : Function} {slots : List Instr}
    {names : Names} {ended : Bool} {code : Code} {site : Site} (starts : Starts types entry source start)
    (lowers : Translation.Lowers ⟨types, signatures, start.outcome⟩ (.suite source.body) start.names
      names ended code)
    (finished : Finished start function slots (code.returning ended start.atEnd) site)
    {role : Role} {i : Instr} (mem : .instr role i ∈
      (Code.seq (.straight (slots ++ start.before)) (code.returning ended start.atEnd)).parts) :
    Writes ⟨types, signatures, start.outcome⟩ function.Allocates role i := by
  rcases List.mem_append.mp mem with first | second
  · obtain ⟨rfl, there⟩ := Code.mem_parts_straight.mp first
    rcases List.mem_append.mp there with slot | before
    · obtain ⟨name, type, rfl⟩ := finished.named i slot
      exact .nothing rfl rfl
    · refine starts.writes_before (fun slot type allocated => ?_) i before
      exact finished.allocates starts (List.mem_append_left _
        (Code.mem_parts_straight.mpr ⟨rfl, List.mem_append_right _ allocated⟩))
  · have owned : code.Owned function.Allocates := fun part mem =>
      finished.owned starts part ((code.parts_sublist_returning ended start.atEnd).subset mem)
    rcases Code.mem_parts_returning second with inside | ends
    · exact (lowers.writesOwned (by simp [starts.slots_eq_nil])).1 owned _ inside role i rfl
    · cases ends

/-- A function that stands for one of the source writes to storage that it allocates. -/
theorem Renders.keepsToStorage {types : Registry} {signatures : SignatureTable} {entry : String}
    {source : Tree.Function} {function : Function}
    (renders : Renders types signatures entry source function) :
    function.KeepsToStorage ⟨types, signatures, outcome types entry source⟩ := by
  obtain ⟨start, starts, emitted⟩ := renders
  obtain ⟨names, ended, code, slots, site, lowers, finished⟩ := emitted.finished starts.plain
  rw [← starts.outcome_eq]
  refine ⟨fun i mem => ?_, fun returns outcome notVoid => ?_⟩
  · obtain ⟨id, -, there⟩ := Function.mem_instrs.mp mem
    obtain ⟨role, part⟩ := finished.exists_part there
    exact ⟨role, finished.writes starts lowers part⟩
  · rw [finished.params]
    exact starts.result_mem_params outcome notVoid

namespace Codegen

/-- Generated functions write to storage that they allocate, and to the place of their results. -/
theorem generate_keepsToStorage {source : Tree.Module} {types : Registry} {options : CodegenOptions}
    {generated : Module} (accepted : (run (generate source types options)).1 = .ok generated) :
    ∃ signatures, SignatureTable.collect source types options.entry = .ok signatures ∧
      List.Forall₂ (fun declared emitted =>
        emitted.KeepsToStorage ⟨types, signatures, outcome types options.entry declared⟩)
        source.functions generated.functions := by
  obtain ⟨_, signatures, collected, renders⟩ := run_ok (generate_yields source types options) accepted
  exact ⟨signatures, collected, renders.imp fun _ _ => Renders.keepsToStorage⟩

/-- A function binds its parameter again, to a value of its type and to one of another, and the entry
    binds what it is given. -/
def rebinding : Tree.Module where
  functions :=
    [{ name := "louder", params := [⟨"line", "str"⟩], returns := "str"
       body :=
        [.assign "line" (.binary .add (.name "line") (.string "!")),
         .forLoop "line" (.call "range" [.int 0, .int 3, .int 1]) [.effect (.name "line")],
         .ret (some (.call "str" [.name "line"]))] },
     { name := "__main__"
       body := [.assign "name" (.call "louder" [.name "name"]), .assign "args" (.name "name")] }]

theorem rebinding_keepsToStorage :
    ∃ generated, (run (generate rebinding .builtin {})).1 = .ok generated ∧
      generated.functions ≠ [] ∧
      ∃ signatures, SignatureTable.collect rebinding .builtin "__main__" = .ok signatures ∧
        List.Forall₂ (fun declared emitted =>
          emitted.KeepsToStorage ⟨.builtin, signatures, outcome .builtin "__main__" declared⟩)
          rebinding.functions generated.functions := by
  have accepted : (match (run (generate rebinding .builtin {})).1 with
      | .ok generated => !generated.functions.isEmpty
      | .error _ => false) = true := by decide +kernel
  cases result : (run (generate rebinding .builtin {})).1 with
  | error error => simp [result] at accepted
  | ok generated =>
      rw [result] at accepted
      exact ⟨generated, rfl, by simpa using accepted, generate_keepsToStorage result⟩

end Codegen

end LlvmBackend
