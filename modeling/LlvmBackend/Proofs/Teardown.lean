import LlvmBackend.Proofs.Observed
import LlvmBackend.Proofs.Translation.Custody.Stmt

/-! # Teardowns are sound

If truth values need no teardown, every walk through an emitted function whose branches go where their
flags say tears down only the results of calls, each at most once and never before its last use.
-/

namespace LlvmBackend

open Ir Lowering Reference Custody

/-! ## What functions do first -/

/-- An instruction that defines no numbered register and reads none leaves slots alone. -/
theorem confined_of_constant {custody : Custody} {i : Instr} (unnumbered : i.number? = none)
    (reads : ∀ operand ∈ i.reads, operand.temp? = none) :
    Confined [] custody (custody.put false i) := by
  have other : ∀ n, i.dest ≠ some (.temp n) := by
    intro n eq
    simp [Instr.number?, eq, Operand.temp?] at unnumbered
  have settles : ∀ {dest : Operand}, i.dest = some dest →
      (custody.put false i).ledger = custody.ledger.settle := by
    intro dest eq
    cases dest with
    | temp n => exact absurd eq (other n)
    | named | symbol | bool | int =>
        cases i <;> cases eq <;> rfl
  cases i with
  | store stored =>
      exact confined_store (intact_of_constant (reads stored.operand (by simp [Instr.reads])))
  | call result =>
      cases result with
      | none => exact confined_call
      | some dest =>
          exact confined_of_settle (course_put other) (settles rfl)
  | alloca | load | elementPtr | select | phi =>
      exact confined_of_settle (course_put other) (settles rfl)

theorem Code.confines_straight {instrs : List Instr} (plain : Start.Plain instrs)
    (reads : ∀ i ∈ instrs, ∀ operand ∈ i.reads, operand.temp? = none) :
    (Code.straight instrs).Confines [] := by
  induction instrs with
  | nil => exact fun _ => runs_skip (.refl _ _)
  | cons i rest ih =>
      obtain ⟨⟨unnumbered, _⟩, others⟩ := List.forall_mem_cons.mp plain
      obtain ⟨here, later⟩ := List.forall_mem_cons.mp reads
      have first : (Code.instr .plain i).Confines [] := by
        intro custody
        apply runs_instr (by simp)
        · exact @admits_of_intact [] _ _ fun operand mem => intact_of_constant (here operand mem)
        · exact confined_of_constant unnumbered here
      exact first.seq (ih others later)

namespace Start

/-- What stands before a body reads no numbered registers. -/
theorem reads_before {types : Registry} {entry : String} {source : Tree.Function} {start : Start}
    (starts : Starts types entry source start) {slots : List Instr}
    (named : ∀ slot ∈ slots, ∃ name type, slot = .alloca (.named name) type) :
    ∀ i ∈ slots ++ start.before, ∀ operand ∈ i.reads, operand.temp? = none := by
  intro i mem
  rcases List.mem_append.mp mem with mem | mem
  · obtain ⟨name, type, rfl⟩ := named i mem
    simp [Instr.reads]
  · cases starts with
    | function => cases mem
    | entry =>
        simp only [ofEntry, prologue, List.mem_cons, List.not_mem_nil, or_false] at mem
        rcases mem with rfl | rfl | rfl | rfl | rfl | rfl | rfl <;> simp [Instr.reads, Operand.temp?]

theorem outer_entry (types : Registry) (arguments : TypeId) :
    (ofEntry types arguments).names.Outer := by
  intro name v found
  simp only [ofEntry, Scopes.lookup_push, Scopes.lookup_define] at found
  split at found
  · cases found
    exact ⟨rfl, by simp [Value.stable, Storage.operands, Operand.temp?]⟩
  · split at found
    · cases found
      exact ⟨rfl, by simp [Value.stable, Storage.operands, Operand.temp?]⟩
    · simp at found

theorem outer_opening {types : Registry} {source : Tree.Function} {opening : Opening}
    (returns : TypeId)
    (entered : source.params.foldlM (Opening.addParam types source.name) {} = .ok opening) :
    (ofOpening source returns (opening.addResult types returns)).names.Outer := by
  have params : ∀ name v, opening.scopes.lookup name = some v →
      v.binding.owns = false ∧ ∀ operand ∈ v.storage.operands, operand.temp? = none := by
    refine addParams_induct (motive := fun _ opening => ∀ name v,
      opening.scopes.lookup name = some v →
        v.binding.owns = false ∧ ∀ operand ∈ v.storage.operands, operand.temp? = none) entered
      (by simp) ?_
    intro opening param _ type _ _ ih name v found
    rw [withParam, Scopes.lookup_define] at found
    split at found
    · cases found
      refine ⟨rfl, ?_⟩
      unfold paramValue
      split <;> simp [Storage.operands, Operand.temp?]
    · exact ih name v found
  intro name v found
  simp only [ofOpening, scopes_addResult, Scopes.lookup_push] at found
  exact params name v found

theorem outer_of_starts {types : Registry} {entry : String} {source : Tree.Function} {start : Start}
    (starts : Starts types entry source start) : start.names.Outer := by
  cases starts with
  | entry => exact outer_entry types _
  | function _ _ entered => exact outer_opening _ entered

end Start

namespace Finished

variable {types : Registry} {signatures : SignatureTable} {entry : String}
  {source : Tree.Function} {start : Start} {function : Function} {slots : List Instr}
  {names : Names} {ended : Bool} {code : Code} {site : Site}

/-- The code of a function can be carried out by the ledger of slots. -/
theorem runs (finished : Finished start function slots (code.returning ended start.atEnd) site)
    (lowers : Translation.Lowers ⟨types, signatures, start.outcome⟩ (.suite source.body) start.names
      names ended code)
    (starts : Starts types entry source start)
    (plain : types.method Registry.bool teardown = none) :
    (Code.seq (.straight (slots ++ start.before)) (code.returning ended start.atEnd)).Runs .start
      fun _ => True := by
  have straight := Code.confines_straight finished.plain (Start.reads_before starts finished.named)
  have temps : (code.returning ended start.atEnd).temps = code.temps := by
    unfold Code.returning
    split
    · rfl
    · exact List.append_nil _
  have nodup := finished.build.numbered.nodup
  rw [temps] at nodup
  obtain ⟨_, confines⟩ := lowers.confines plain (Start.outer_of_starts starts) nodup
  apply Code.runs_seq
  apply (straight .start).mono
  intro custody _
  unfold Code.returning
  split
  · exact (confines custody).mono fun _ _ => trivial
  · exact Code.runs_seq ((confines custody).mono fun _ _ => Code.runs_ret)

end Finished

/-- Walks through an emitted function are observed as the traces of its source, and what they do
    unobserved tears values down soundly. -/
theorem Renders.safe {types : Registry} {signatures : SignatureTable} {entry : String}
    {source : Tree.Function} {function : Function}
    (renders : Renders types signatures entry source function)
    (plain : types.method Registry.bool teardown = none) :
    ∃ hidden, function.Shows types hidden (functionTraces types signatures entry source) ∧
      ∀ moves stop, function.Walk moves stop → Consistent (Course.start.resolved moves) →
        Safe hidden (Course.start.resolved moves) := by
  obtain ⟨hidden, start, slots, names, ended, code, site, starts, lowers, finished, laid, shows⟩ :=
    renders.shows
  have runs := finished.runs lowers starts plain
  have returns := fun acts stop => @Finished.returns _ _ _ _ _ finished acts stop
  exact ⟨hidden, shows, fun moves stop walk => runs.safe laid returns walk⟩

namespace Codegen

/-- If truth values need no teardown, walks through generated functions tear down nothing but the
    results of calls, and these soundly: only from slots that hold such a result, once from one
    allocation to the next, with no use behind it, and not if the result was moved to a variable. -/
theorem generate_safe {source : Tree.Module} {types : Registry} {options : CodegenOptions}
    {generated : Module} (plain : types.method Registry.bool teardown = none)
    (accepted : (run (generate source types options)).1 = .ok generated) :
    ∃ signatures, SignatureTable.collect source types options.entry = .ok signatures ∧
      List.Forall₂ (fun declared emitted => ∃ hidden,
        Ir.Function.Shows types emitted hidden
          (functionTraces types signatures options.entry declared) ∧
        ∀ moves stop, emitted.Walk moves stop → Consistent (Course.start.resolved moves) →
          Safe hidden (Course.start.resolved moves))
        source.functions generated.functions := by
  obtain ⟨_, signatures, collected, renders⟩ := run_ok (generate_yields source types options) accepted
  exact ⟨signatures, collected, renders.imp fun _ _ renders => renders.safe plain⟩

/-- A loop that prints either a text it got or one it made, and gives away another one. -/
def echoing : Tree.Module where
  functions :=
    [{ name := "echo", params := [⟨"text", "str"⟩, ⟨"loud", "bool"⟩], returns := "str"
       body :=
        [.whileLoop (.name "loud")
          [.effect (.call "print"
            [.ternary (.name "loud") (.binary .add (.name "text") (.string "!")) (.name "text")])],
         .ret (some (.binary .add (.name "text") (.string "?")))] }]

theorem echoing_safe : Registry.method .builtin Registry.bool teardown = none ∧
    ∃ generated signatures, (run (generate echoing .builtin {})).1 = .ok generated ∧
      SignatureTable.collect echoing .builtin "__main__" = .ok signatures ∧
      List.Forall₂ (fun declared emitted => ∃ hidden,
        Ir.Function.Shows .builtin emitted hidden
          (functionTraces .builtin signatures "__main__" declared) ∧
        ∀ moves stop, emitted.Walk moves stop → Consistent (Course.start.resolved moves) →
          Safe hidden (Course.start.resolved moves))
        echoing.functions generated.functions := by
  have plain : Registry.method .builtin Registry.bool teardown = none := by decide +kernel
  have accepted : (run (generate echoing .builtin {})).1.toBool = true := by decide +kernel
  cases result : (run (generate echoing .builtin {})).1 with
  | error error => simp [result, Except.toBool] at accepted
  | ok generated =>
      obtain ⟨signatures, collected, safe⟩ := generate_safe plain result
      exact ⟨plain, generated, signatures, rfl, collected, safe⟩

end Codegen

end LlvmBackend
