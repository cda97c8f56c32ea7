import LlvmBackend.Proofs.Opening
import LlvmBackend.Proofs.Translation.Flags
import LlvmBackend.Proofs.Typing

/-! # Flags

With what types the operands are produced that decide branches and selections in emitted functions.
They are truth values exactly if all that the source uses as a condition is coerced to what is
represented as one; a coercion is only ever asked for its result, not for a truth value.
-/

namespace LlvmBackend

open Ir Lowering Reference

/-- The operands that decide where control goes in a function and what is selected in it, and the
    truth values that meet in it. -/
def Ir.Function.flags (function : Function) : List Operand :=
  function.layout.flatMap fun id =>
    (function.block id).instrs.flatMap Instr.flags ++
      (function.block id).terminator.toList.flatMap Terminator.flags

/-! ## Flags of functions -/

theorem Code.flags_straight (instrs : List Instr) :
    (straight instrs).flags = instrs.flatMap Instr.flags := by
  induction instrs with
  | nil => rfl
  | cons i rest ih =>
      rw [straight, List.foldr_cons, ← straight, flags_seq, flags_instr, ih, List.flatMap_cons]

/-- A return decides nothing. -/
theorem Code.flags_returning (code : Code) (ended : Bool) (value : Option TypedOperand) :
    (code.returning ended value).flags = code.flags := by
  cases ended <;> simp [returning]

/-- Nothing is decided before the body of a function. -/
theorem Starts.flags_before {types : Registry} {entry : String} {source : Tree.Function}
    {start : Start} (starts : Starts types entry source start) :
    start.before.flatMap Instr.flags = [] := by
  cases starts with
  | entry | function => rfl

namespace Finished

variable {start : Start} {function : Function} {slots : List Instr} {code : Code} {site : Site}
  (finished : Finished start function slots code site)
include finished

theorem mem_layout_of_ends {spot : Spot} {terminator : Terminator}
    (ends : function.table.Ends spot terminator) : spot.block ∈ function.layout := by
  by_contra new
  have blank := finished.valid.blank spot.block (finished.layout ▸ new)
  have terminates : (function.block spot.block).terminator = some terminator := ends.2
  rw [finished.block, blank.2] at terminates
  cases terminates

/-- The flags of a function are those of its code. -/
theorem mem_flags (wellFormed : function.WellFormed)
    (before : start.before.flatMap Instr.flags = []) {flag : Operand} :
    flag ∈ function.flags ↔ flag ∈ code.flags := by
  have same : (Code.seq (.straight (slots ++ start.before)) code).flags = code.flags := by
    have hoisted : slots.flatMap Instr.flags = [] := by
      refine List.flatMap_eq_nil_iff.mpr fun slot mem => ?_
      obtain ⟨name, type, rfl⟩ := finished.named slot mem
      rfl
    rw [Code.flags_seq, Code.flags_straight, List.flatMap_append, hoisted, before]
    rfl
  rw [← same, Code.flags, List.mem_flatMap, Function.flags, List.mem_flatMap]
  obtain ⟨marks, laid⟩ := finished.laid
  have laid := laid (.start 0)
  constructor
  · rintro ⟨id, -, mem⟩
    rcases List.mem_append.mp mem with mem | mem
    · obtain ⟨i, mem, decides⟩ := List.mem_flatMap.mp mem
      obtain ⟨role, mem⟩ := finished.exists_part mem
      exact ⟨_, mem, decides⟩
    · obtain ⟨terminator, eq, decides⟩ := List.mem_flatMap.mp mem
      exact ⟨_, finished.ends_mem_parts (Option.mem_toList.mp eq), decides⟩
  · rintro ⟨part, mem, decides⟩
    cases part with
    | instr role i =>
        obtain ⟨spot, holds⟩ := laid.holds mem
        exact ⟨spot.block, wellFormed.mem_of_holds holds, List.mem_append_left _
          (List.mem_flatMap.mpr ⟨i, List.mem_of_getElem? holds, decides⟩)⟩
    | ends terminator =>
        obtain ⟨spot, ends⟩ := laid.ends mem
        exact ⟨spot.block, finished.mem_layout_of_ends ends, List.mem_append_right _
          (List.mem_flatMap.mpr ⟨terminator, Option.mem_toList.mpr ends.2, decides⟩)⟩
    | read | slot => cases decides

/-- What its code is made of stands in a function. -/
theorem mem_instrs (wellFormed : function.WellFormed) {role : Role} {i : Instr}
    (mem : .instr role i ∈ (Code.seq (.straight (slots ++ start.before)) code).parts) :
    i ∈ function.instrs := by
  obtain ⟨marks, laid⟩ := finished.laid
  obtain ⟨spot, holds⟩ := (laid (.start 0)).holds mem
  exact Function.mem_instrs.mpr
    ⟨spot.block, wellFormed.mem_of_holds holds, List.mem_of_getElem? holds⟩

/-- What an emitted function defines are registers. -/
theorem registers (plain : ∀ i ∈ start.before, ∀ dest ∈ i.dest, dest.isRegister) :
    ∀ i ∈ function.instrs, ∀ dest ∈ i.dest, dest.isRegister := by
  intro i mem dest defines
  obtain ⟨id, -, mem⟩ := Function.mem_instrs.mp mem
  obtain ⟨role, mem⟩ := finished.exists_part mem
  rcases List.mem_append.mp mem with mem | mem
  · rcases List.mem_append.mp (Code.mem_parts_straight.mp mem).2 with slot | before
    · obtain ⟨name, type, rfl⟩ := finished.named i slot
      cases defines
      rfl
    · exact plain i before dest defines
  · obtain ⟨n, rfl⟩ := finished.build.dest_eq_temp mem defines
    rfl

theorem apart (plain : ∀ i ∈ start.before, ∀ dest ∈ i.dest, dest.isRegister)
    (params : (function.params.map Param.name).Nodup) : function.Apart [] where
  params := params
  globals := List.nodup_nil
  registers := finished.registers plain

/-- The temporaries of the code have the types in the function that their instructions state. -/
theorem states (wellFormed : function.WellFormed) (apart : function.Apart []) :
    code.All (States (function.HasType [])) := by
  intro part mem
  cases part with
  | instr role i =>
      intro type n defined
      have there := finished.mem_instrs wellFormed (List.mem_append_right _ mem)
      exact (Function.Defines.instr there defined).hasType wellFormed apart
  | read | slot | ends => trivial

end Finished

namespace Ir.Function

/-- What decides in a function are truth values: registers that are produced as such. -/
def DecidesByTruth (function : Function) : Prop :=
  ∀ flag ∈ function.flags, TypedOperand.Fits (function.HasType []) ⟨.i1, flag⟩

end Ir.Function

/-- Where the types of flags are known, they are all truth values exactly if these types are. -/
theorem Produced.all_iff {types : Registry} {function : Function} {given : List TypeId}
    {flags : List Operand} (produced : Produced types (function.HasType []) given flags) :
    (∀ flag ∈ flags, TypedOperand.Fits (function.HasType []) ⟨.i1, flag⟩) ↔
      ∀ type ∈ given, types.ir type = IrType.i1.text := by
  constructor
  · intro all type mem
    obtain ⟨flag, there, fits⟩ := produced.meets type mem
    have fits' := all flag there
    cases flag with
    | bool => exact congrArg IrType.text fits
    | int => exact absurd fits' (by simp [TypedOperand.Fits, IrType.i1, IrType.i32, IrType.i64])
    | temp | named | symbol => exact congrArg IrType.text (fits'.2 _ fits.1)
  · intro all flag mem
    rcases produced.fits flag mem with fits | ⟨type, there, fits⟩
    · exact fits
    · rwa [all type there] at fits

/-- What is known of names before a body stands in operands of its type. -/
theorem Starts.heldNames {types : Registry} {signatures : SignatureTable} {entry : String}
    {source : Tree.Function} {start : Start} {has : Operand → IrType → Prop}
    (starts : Starts types entry source start)
    (params : ∀ param ∈ start.header.params, has (.named param.name) param.type) :
    Translation.HeldNames ⟨types, signatures, start.outcome⟩ has start.names := by
  intro name value found
  cases starts with
  | entry =>
      simp only [Start.ofEntry, Scopes.lookup_push, Scopes.lookup_define, Scopes.lookup_empty] at found
      split at found
      · cases found
        exact Translation.held_addressed rfl
      · split at found
        · cases found
          exact Translation.held_addressed rfl
        · cases found
  | function _ _ entered =>
      simp only [Start.ofOpening, scopes_addResult, Scopes.lookup_push] at found
      refine (Lowering.fits_addParams entered (fun param mem => params param ?_) name value found).held
      simp only [Start.ofOpening, Opening.addResult]
      split
      · exact mem
      · exact List.mem_append_left _ mem

theorem Starts.nodup_params {types : Registry} {entry : String} {source : Tree.Function}
    {start : Start} (starts : Starts types entry source start) (distinct : source.Distinct) :
    (start.header.params.map Param.name).Nodup := by
  cases starts with
  | entry => exact (by decide : ["argc", "argv"].Nodup)
  | @function returns opening _ _ entered =>
      have nodup : ((opened source (opening.addResult types returns) {}).builder.params.map
          Param.name).Nodup := nodup_opening distinct entered
      exact nodup

theorem Starts.registers {types : Registry} {entry : String} {source : Tree.Function}
    {start : Start} (starts : Starts types entry source start) :
    ∀ i ∈ start.before, ∀ dest ∈ i.dest, dest.isRegister := by
  cases starts with
  | entry => simp [Start.ofEntry, Start.prologue, Instr.dest, Operand.isRegister]
  | function => simp [Start.ofOpening]

/-- What decides in a function are truth values exactly if all that its source uses as a flag is
    represented as one. -/
theorem Renders.decidesByTruth_iff {types : Registry} {signatures : SignatureTable} {entry : String}
    {source : Tree.Function} {function : Function}
    (renders : Renders types signatures entry source function)
    (truth : types.ir Registry.bool = IrType.i1.text) (distinct : source.Distinct) :
    function.DecidesByTruth ↔
      ∀ type ∈ suiteFlags types signatures (.opened (opening types entry source)) source.body,
        types.ir type = IrType.i1.text := by
  have wellFormed := renders.wellFormed.2
  obtain ⟨start, starts, emitted⟩ := renders
  obtain ⟨names, ended, code, slots, site, lowers, finished⟩ := emitted.finished starts.plain
  have nodup : (function.params.map Param.name).Nodup := by
    rw [finished.params]
    exact starts.nodup_params distinct
  have apart := finished.apart starts.registers nodup
  have held : Translation.HeldNames ⟨types, signatures, start.outcome⟩ (function.HasType [])
      start.names := starts.heldNames fun param mem =>
    (Function.Defines.param (finished.params ▸ mem)).hasType wellFormed apart
  have states : code.All (States (function.HasType [])) := fun part mem =>
    finished.states wellFormed apart part ((code.parts_sublist_returning ended start.atEnd).subset mem)
  obtain ⟨-, produced⟩ := lowers.produces (congrArg IrType.mk truth) held states
  rw [Start.typing_of_starts starts] at produced
  refine Iff.trans ?_ produced.all_iff
  simp only [Function.DecidesByTruth, finished.mem_flags wellFormed starts.flags_before,
    Code.flags_returning]

namespace Codegen

/-- In each generated function what decides branches and selections are truth values exactly if all
    that its source uses as a flag, behind its coercion, is of a type that is represented as one. -/
theorem generate_decidesByTruth_iff {source : Tree.Module} {types : Registry}
    {options : CodegenOptions} {generated : Module}
    (truth : types.ir Registry.bool = IrType.i1.text)
    (distinct : ∀ function ∈ source.functions, function.Distinct)
    (accepted : (run (generate source types options)).1 = .ok generated) :
    ∃ signatures, SignatureTable.collect source types options.entry = .ok signatures ∧
      List.Forall₂ (fun declared emitted => emitted.DecidesByTruth ↔
        ∀ type ∈ suiteFlags types signatures (.opened (opening types options.entry declared))
          declared.body, types.ir type = IrType.i1.text)
        source.functions generated.functions := by
  obtain ⟨_, signatures, collected, renders⟩ := run_ok (generate_yields source types options) accepted
  refine ⟨signatures, collected, ?_⟩
  refine (List.forall₂_and_left _ _).mpr ⟨distinct, renders⟩ |>.imp ?_
  rintro declared emitted ⟨distinct, renders⟩
  exact renders.decidesByTruth_iff truth distinct

end Codegen

end LlvmBackend
