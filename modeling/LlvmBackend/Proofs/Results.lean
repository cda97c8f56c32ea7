import LlvmBackend.Proofs.Reads
import LlvmBackend.Proofs.Storage

/-! # Results of functions

A function whose body always returns stores its result right before control leaves it, whichever way
control takes, and nowhere else. The return behind the body, which stores nothing, is not reached
then.
-/

namespace LlvmBackend

open Ir Lowering Reference

/-- Whichever way control leaves a function, a value of a type is stored as the result right before
    and not earlier. -/
def Ir.Function.GivesResult (function : Function) (type : IrType) : Prop :=
  ∀ moves, function.Walk moves none → ∃ before p operand,
    moves = before ++
      [.instr p (.store ⟨type, operand⟩ (.named resultName)), .ret p.next none] ∧
    ∀ q value, .instr q (.store value (.named resultName)) ∉ before

/-! ## Stores -/

/-- What does not pass a result on stores to storage of the function. -/
theorem Writes.owns_of_store {env : Surroundings} {owns : Operand → Prop} {role : Role}
    {value : TypedOperand} {dest : Operand} (writes : Writes env owns role (.store value dest))
    (other : role = .result → ∀ returns, env.outcome = .result returns → returns = Registry.void) :
    owns dest := by
  cases writes with
  | nothing silent => cases silent
  | value _ owned => exact owned
  | result outcome notVoid => exact absurd (other rfl _ outcome) notVoid

theorem Code.ends_notMem_straight {terminator : Terminator} {instrs : List Instr} :
    .ends terminator ∉ (Code.straight instrs).parts := by
  induction instrs with
  | nil => simp [straight, parts]
  | cons i rest ih => simpa [straight, parts] using ih

theorem Act.exists_role {acts : List Act} {move : Move} (mem : move ∈ Act.moves acts) :
    ∃ role, .move role move ∈ acts := by
  obtain ⟨act, there, eq⟩ := List.mem_filterMap.mp mem
  cases act <;> cases eq
  exact ⟨_, there⟩

/-- Where a body leaves the function, nothing is carried out behind it. -/
theorem Exec.of_returning {p : Spot} {code : Code} {ended : Bool} {value : Option TypedOperand}
    {acts : List Act} {stop : Option Spot} (exec : Exec p (code.returning ended value) acts stop)
    (departs : code.traces.Departs) : Exec p code acts none := by
  have leaves : ∀ {acts stop}, Exec p code acts stop → stop = none := by
    intro acts stop exec
    cases stop with
    | none => rfl
    | some => exact absurd exec.mem_traces (departs _)
  cases ended with
  | true => exact leaves exec ▸ exec
  | false =>
      cases exec with
      | seq first _ => cases leaves first
      | seqReturns first => exact first

namespace Finished

variable {types : Registry} {signatures : SignatureTable} {entry : String} {source : Tree.Function}
  {start : Start} {function : Function} {slots : List Instr} {names : Names} {ended : Bool}
  {code : Code} {site : Site} (starts : Starts types entry source start)
  (lowers : Translation.Lowers ⟨types, signatures, start.outcome⟩ (.suite source.body) start.names
    names ended code)
  (finished : Finished start function slots (code.returning ended start.atEnd) site)
include starts lowers finished

/-- What is stored on the way through a function and is not its result goes to its storage. -/
theorem allocates_of_store {role : Role} {p : Spot} {value : TypedOperand} {dest : Operand}
    (carried : Act.From (Code.seq (.straight (slots ++ start.before))
      (code.returning ended start.atEnd)).parts (.move role (.instr p (.store value dest))))
    (free : Act.isResult (.move role (.instr p (.store value dest))) = false) :
    function.Allocates dest := by
  refine (finished.writes starts lowers carried).owns_of_store fun result => ?_
  simp [Act.isResult, result] at free

/-- If its body always returns, a function gives a result in each way out of it. -/
theorem givesResult {returns : TypeId} (outcome : start.outcome = .result returns)
    (notVoid : returns ≠ Registry.void) (returning : suiteReturns source.body) :
    function.GivesResult ⟨types.ir returns⟩ := by
  intro moves walk
  obtain ⟨marks, laid⟩ := finished.laid
  cases (laid (.start 0)).follows walk with
  | beyond exec _ => cases finished.returns exec
  | within exec eq stops =>
      obtain ⟨rfl, rfl⟩ := stops rfl
      rw [List.append_nil] at eq
      have from_code := exec.acts_from
      cases exec with
      | seqReturns first => cases first.straight.2
      | @seq _ _ opening _ _ _ _ first second =>
          have departs : code.traces.Departs := by
            rw [lowers.traces]
            exact suiteTraces_departs _ _ returning
          obtain ⟨before, last, rfl, free, -, leaves⟩ := (second.of_returning departs).leaving
            (fun _ => Translation.Departure.departs) lowers.leaving
          obtain ⟨p, piece, departure, way⟩ := leaves rfl
          cases departure with
          | bare given => simp [outcome, notVoid] at given
          | @result returns' operand outcome' _ =>
              cases outcome.symm.trans outcome'
              cases way with
              | seqReturns store => cases store
              | seq store ret =>
                  cases store
                  cases ret
                  refine ⟨Act.moves (opening ++ before), p, operand, by simp [← eq], ?_⟩
                  intro q value mem
                  obtain ⟨role, mem⟩ := Act.exists_role mem
                  have free : ∀ act ∈ opening ++ before, act.isResult = false :=
                    List.forall_mem_append.mpr ⟨first.free (by simp [Code.mem_parts_straight]), free⟩
                  have owned := finished.allocates_of_store starts lowers
                    (from_code _ (List.append_assoc .. ▸ List.mem_append_left _ mem)) (free _ mem)
                  refine owned.params ⟨.ptr ⟨types.ir returns⟩, resultName⟩ ?_ rfl
                  rw [finished.params]
                  exact starts.result_mem_params outcome notVoid

/-- The returns of the entry of a module say that all went well. -/
theorem returns_success (status : start.outcome = .status) {id : BlockId}
    {value : Option TypedOperand} (ends : (function.block id).terminator = some (.ret value)) :
    value = some success := by
  have atEnd : start.atEnd = some success := by
    cases starts with
    | entry => rfl
    | function => cases status
  rcases List.mem_append.mp (finished.ends_mem_parts ends) with first | second
  · exact absurd first Code.ends_notMem_straight
  · rcases Code.mem_parts_returning second with inside | last
    · obtain ⟨piece, departure, there⟩ := lowers.leaving.exists_ret inside
      cases departure with
      | bare given =>
          cases List.mem_singleton.mp there
          simpa [status] using given
      | result outcome => cases status.symm.trans outcome
    · cases last
      exact atEnd

end Finished

/-- Where a function gives nothing, it stores only to its own storage. -/
theorem Ir.Function.KeepsToStorage.allocates {env : Surroundings} {function : Function}
    (keeps : function.KeepsToStorage env)
    (nothing : ∀ returns, env.outcome = .result returns → returns = Registry.void)
    {value : TypedOperand} {dest : Operand} (mem : .store value dest ∈ function.instrs) :
    function.Allocates dest := by
  obtain ⟨role, writes⟩ := keeps.writes _ mem
  exact writes.owns_of_store fun _ => nothing

/-- How an emitted function gives its result: a function with one stores it last if its body always
    returns, a function without one stores to no parameter, and the entry of a module returns zero. -/
structure Reference.Delivers (types : Registry) (entry : String) (source : Tree.Function)
    (function : Function) : Prop where
  result : source.name ≠ entry → typeNamed types source.returns ≠ Registry.void →
    suiteReturns source.body → function.GivesResult ⟨types.ir (typeNamed types source.returns)⟩
  nothing : source.name = entry ∨ typeNamed types source.returns = Registry.void →
    ∀ value dest, .store value dest ∈ function.instrs → ∀ param ∈ function.params,
      dest ≠ .named param.name
  status : source.name = entry → ∀ id value,
    (function.block id).terminator = some (.ret value) → value = some ⟨.i32, .int 0⟩

/-- A function that stands for one of the source gives the result of that. -/
theorem Renders.delivers {types : Registry} {signatures : SignatureTable} {entry : String}
    {source : Tree.Function} {function : Function}
    (renders : Renders types signatures entry source function) :
    Delivers types entry source function := by
  have keeps := renders.keepsToStorage
  obtain ⟨start, starts, emitted⟩ := renders
  obtain ⟨names, ended, code, slots, site, lowers, finished⟩ := emitted.finished starts.plain
  have outcome_eq := starts.outcome_eq
  refine ⟨fun other notVoid returning => ?_, fun given value dest mem => ?_, fun named id value => ?_⟩
  · rw [outcome, if_neg other] at outcome_eq
    exact finished.givesResult starts lowers outcome_eq notVoid returning
  · refine (keeps.allocates (fun returns result => ?_) mem).params
    rw [outcome] at result
    rcases given with named | void
    · cases (if_pos named).symm.trans result
    · split at result
      · cases result
      · exact (Outcome.result.inj result).symm.trans void
  · rw [outcome, if_pos named] at outcome_eq
    exact finished.returns_success starts lowers outcome_eq

namespace Codegen

/-- Generated functions give the results of those they stand for. -/
theorem generate_delivers {source : Tree.Module} {types : Registry} {options : CodegenOptions}
    {generated : Module} (accepted : (run (generate source types options)).1 = .ok generated) :
    List.Forall₂ (Delivers types options.entry) source.functions generated.functions := by
  obtain ⟨_, signatures, _, renders⟩ := run_ok (generate_yields source types options) accepted
  exact renders.imp fun _ _ => Renders.delivers

/-- A function that returns from within a chain, within a loop and behind both, and an entry that
    returns early. -/
def returning : Tree.Module where
  functions :=
    [{ name := "sign", params := [⟨"n", "int"⟩], returns := "int"
       body :=
        [.whileLoop (.bool true) [.ifChain [.mk (some (.name "n")) [.ret (some (.name "n"))]]],
         .ifChain
          [.mk (some (.binary .lt (.name "n") (.int 0))) [.ret (some (.int (-1)))],
           .mk none [.effect (.name "n"), .ret (some (.int 1)), .effect (.name "n")]],
         .assign "n" (.int 2)] },
     { name := "__main__"
       body := [.ifChain [.mk (some (.call "sign" [.int 3])) [.ret none]], .effect (.name "args")] }]

example : (returning.functions.map fun function => suiteReturns function.body) = [true, false] := by
  decide

theorem returning_delivers :
    ∃ generated, (run (generate returning .builtin {})).1 = .ok generated ∧
      generated.functions ≠ [] ∧
      List.Forall₂ (Delivers .builtin "__main__") returning.functions generated.functions := by
  have accepted : (match (run (generate returning .builtin {})).1 with
      | .ok generated => !generated.functions.isEmpty
      | .error _ => false) = true := by decide +kernel
  cases result : (run (generate returning .builtin {})).1 with
  | error error => simp [result] at accepted
  | ok generated =>
      rw [result] at accepted
      exact ⟨generated, rfl, by simpa using accepted, generate_delivers result⟩

end Codegen

end LlvmBackend
