import LlvmBackend.Proofs.Code.Observed
import LlvmBackend.Proofs.Opening
import LlvmBackend.Proofs.Translation.Parts

/-! # Emitted functions behave as their source

Complete walks through an emitted function are observed as the traces that the reference semantics
gives its source, and every walk can be completed.
-/

namespace LlvmBackend

open Ir Lowering Reference

/-- An instruction tears a value down by the method that its type has for this. -/
def Instr.TearsDown (types : Registry) (i : Instr) : Prop :=
  ∃ type entry address, types.method type teardown = some entry ∧
    i = Translation.teardownCall types type entry address

/-- The walks of a function show some traces, up to spots that are there only to tear values
    down. -/
structure Ir.Function.Shows (types : Registry) (function : Function) (hidden : Spot → Bool)
    (traces : List Event → Prop) : Prop where
  unseen : ∀ spot, hidden spot → function.table.TearsDown (Instr.TearsDown types) spot
  completes : ∀ moves stop, function.Walk moves stop → ∃ more, function.Walk (moves ++ more) none
  traces : ∀ trace,
    (∃ moves, function.Walk moves none ∧ moves.flatMap (Move.observed hidden) = trace) ↔
      traces trace

/-! ## Functions -/

theorem Code.traces_straight (instrs : List Instr) :
    (straight instrs).traces = .one (instrs.flatMap Instr.calls) := by
  induction instrs with
  | nil => rfl
  | cons i rest ih =>
      show Traces.seq (.one i.calls) (straight rest).traces = _
      rw [ih, Traces.one_append, List.flatMap_cons]

theorem calls_slots {slots : List Instr}
    (named : ∀ slot ∈ slots, ∃ name type, slot = .alloca (.named name) type) :
    slots.flatMap Instr.calls = [] := by
  refine List.flatMap_eq_nil_iff.mpr fun slot mem => ?_
  obtain ⟨name, type, rfl⟩ := named slot mem
  rfl

/-- A body that is returned from behind its end has the traces of the body. -/
theorem Code.traces_returning {code : Code} {ended : Bool} {value : Option TypedOperand}
    (events : List Event) :
    (∃ left, (code.returning ended value).traces events left) ↔ ∃ left, code.traces events left := by
  cases ended with
  | true => rfl
  | false =>
      constructor
      · rintro ⟨left, ⟨before, after, rfl, h, rfl, _⟩ | ⟨_, h⟩⟩
        · exact ⟨false, by rwa [List.append_nil]⟩
        · exact ⟨true, h⟩
      · rintro ⟨left, h⟩
        cases left with
        | false => exact ⟨true, .inl ⟨events, [], (List.append_nil _).symm, h, rfl, rfl⟩⟩
        | true => exact ⟨true, .inr ⟨rfl, h⟩⟩

theorem Code.guarded_straight (instrs : List Instr) : (straight instrs).Guarded := by
  induction instrs with
  | nil => trivial
  | cons _ _ ih => exact ⟨trivial, ih⟩

namespace Translation

/-- Released values are torn down by the methods of their types. -/
theorem Lowers.tearsDown {env : Surroundings} {work : Work} {names names' : Names} {ended : Bool}
    {code : Code} (lowers : Lowers env work names names' ended code) {i : Instr}
    (mem : .instr .release i ∈ code.parts) : i.TearsDown env.types := by
  have admits : AdmitsWork env fun part =>
      ∀ i, part = .instr .release i → i.TearsDown env.types := by
    refine ⟨⟨by simp, by simp, by simp, ?_⟩, by simp, ?_, by simp⟩
    · rintro type entry address found i ⟨⟩
      exact ⟨type, entry, address, found, rfl⟩
    · rintro role value slot _ other _ ⟨⟩
      exact absurd rfl other
  exact lowers.all admits (by simp) _ mem i rfl

theorem Lowers.tearsDown_all {env : Surroundings} {work : Work} {names names' : Names}
    {ended : Bool} {code : Code} (lowers : Lowers env work names names' ended code)
    {before : List Instr} {value : Option TypedOperand} {i : Instr}
    (mem : .instr .release i ∈ (Code.seq (.straight before) (code.returning ended value)).parts) :
    i.TearsDown env.types := by
  rcases List.mem_append.mp mem with mem | mem
  · cases (Code.mem_parts_straight.mp mem).1
  · exact lowers.tearsDown ((Code.mem_parts_returning mem).resolve_right (by simp))

end Translation

namespace Finished

variable {types : Registry} {signatures : SignatureTable} {start : Start} {function : Function}
  {slots : List Instr} {body : List Stmt} {names : Names} {ended : Bool} {code : Code} {site : Site}

section

variable (finished : Finished start function slots (code.returning ended start.atEnd) site)
  (lowers : Translation.Lowers ⟨types, signatures, start.outcome⟩ (.suite body) start.names names
    ended code)
include finished lowers

/-- Code stands in a function with nothing hidden but what tears values down. -/
theorem laid_hiding : ∃ hidden : Spot → Bool,
    (∀ spot, hidden spot → function.table.TearsDown (Instr.TearsDown types) spot) ∧
    Laid function.table (fun spot => hidden spot) (.start function.entry)
      (.seq (.straight (slots ++ start.before)) (code.returning ended start.atEnd)) (.start 0) := by
  classical
  obtain ⟨marks, laid⟩ := finished.laid
  have guarded : (Code.seq (.straight (slots ++ start.before))
      (code.returning ended start.atEnd)).Guarded :=
    ⟨Code.guarded_straight _, finished.build.guarded⟩
  have laid := (laid (.start 0)).restrict guarded fun _ => lowers.tearsDown_all
  refine ⟨fun spot => decide (marks spot ∧ function.table.TearsDown (Instr.TearsDown types) spot),
    fun spot hidden => (of_decide_eq_true hidden).2, ?_⟩
  simpa only [decide_eq_true_eq] using laid

/-- Walks through a function are observed as the traces of its body, behind what it does first. -/
theorem shows {hidden : Spot → Bool}
    (unseen : ∀ spot, hidden spot → function.table.TearsDown (Instr.TearsDown types) spot)
    (laid : Laid function.table (fun spot => hidden spot) (.start function.entry)
      (.seq (.straight (slots ++ start.before)) (code.returning ended start.atEnd)) (.start 0)) :
    function.Shows types hidden fun trace => ∃ events left,
      suiteTraces types signatures start.names.typing body events left ∧
      trace = start.before.flatMap Instr.calls ++ events.filter Event.isControl := by
  have returns := fun acts stop => @Finished.returns _ _ _ _ _ finished acts stop
  have before : (Code.straight (slots ++ start.before)).traces =
      .one (start.before.flatMap Instr.calls) := by
    rw [Code.traces_straight, List.flatMap_append, calls_slots finished.named, List.nil_append]
  have silent : (start.before.flatMap Instr.calls).filter Event.isControl =
      start.before.flatMap Instr.calls := by
    rw [List.filter_flatMap]
    exact congrArg start.before.flatMap (funext Instr.filter_calls)
  have body : code.traces = suiteTraces types signatures start.names.typing body := lowers.traces
  refine ⟨unseen, fun moves stop => laid.completes returns, fun trace => ?_⟩
  refine (laid.observed_iff returns trace).trans ?_
  rw [← body]
  constructor
  · rintro ⟨events, left, traces, rfl⟩
    rw [Code.traces, before] at traces
    obtain ⟨rest, rfl, within⟩ := Traces.one_seq.mp traces
    obtain ⟨left, within⟩ := (Code.traces_returning rest).mp ⟨left, within⟩
    exact ⟨rest, left, within, by rw [List.filter_append, silent]⟩
  · rintro ⟨events, left, traces, rfl⟩
    obtain ⟨left, traces⟩ := (Code.traces_returning events).mpr ⟨left, traces⟩
    refine ⟨start.before.flatMap Instr.calls ++ events, left, ?_, ?_⟩
    · rw [Code.traces, before]
      exact Traces.one_seq.mpr ⟨events, rfl, traces⟩
    · rw [List.filter_append, silent]

end

end Finished

/-- Walks through an emitted function are observed as the traces of its source. Its code stands in it
    with nothing hidden but what tears values down. -/
theorem Renders.shows {types : Registry} {signatures : SignatureTable} {entry : String}
    {source : Tree.Function} {function : Function}
    (renders : Renders types signatures entry source function) :
    ∃ hidden start slots names ended code site, Starts types entry source start ∧
      Translation.Lowers ⟨types, signatures, start.outcome⟩ (.suite source.body) start.names names
        ended code ∧
      Finished start function slots (code.returning ended start.atEnd) site ∧
      Laid function.table (fun spot => hidden spot) (.start function.entry)
        (.seq (.straight (slots ++ start.before)) (code.returning ended start.atEnd)) (.start 0) ∧
      function.Shows types hidden (functionTraces types signatures entry source) := by
  obtain ⟨start, starts, emitted⟩ := renders
  obtain ⟨names, ended, code, slots, site, lowers, finished⟩ := emitted.finished starts.plain
  obtain ⟨hidden, unseen, laid⟩ := finished.laid_hiding lowers
  have shows := finished.shows lowers unseen laid
  rw [Start.typing_of_starts starts, Start.calls_before starts] at shows
  exact ⟨hidden, start, slots, names, ended, code, site, starts, lowers, finished, laid, shows⟩

namespace Codegen

/-- Each generated function behaves as the function at its place in the source: its complete walks
    are observed as the traces of its source, and every walk can be completed. -/
theorem generate_shows {source : Tree.Module} {types : Registry} {options : CodegenOptions}
    {generated : Module} (accepted : (run (generate source types options)).1 = .ok generated) :
    ∃ signatures, SignatureTable.collect source types options.entry = .ok signatures ∧
      List.Forall₂ (fun declared emitted => ∃ hidden,
        Ir.Function.Shows types emitted hidden
          (functionTraces types signatures options.entry declared))
        source.functions generated.functions := by
  obtain ⟨_, signatures, collected, renders⟩ := run_ok (generate_yields source types options) accepted
  refine ⟨signatures, collected, renders.imp fun _ _ renders => ?_⟩
  obtain ⟨hidden, _, _, _, _, _, _, _, _, _, _, shows⟩ := renders.shows
  exact ⟨hidden, shows⟩

/-- A function that calls another one in a loop. -/
def polling : Tree.Module where
  functions :=
    [{ name := "ping", body := [] },
     { name := "poll", params := [⟨"x", "bool"⟩]
       body := [.whileLoop (.or (.name "x") (.not (.name "x"))) [.effect (.call "ping" [])]] }]

theorem polling_shows : ∃ generated signatures,
    (run (generate polling .builtin {})).1 = .ok generated ∧
    SignatureTable.collect polling .builtin "__main__" = .ok signatures ∧
    List.Forall₂ (fun declared emitted => ∃ hidden,
      Ir.Function.Shows .builtin emitted hidden
        (functionTraces .builtin signatures "__main__" declared))
      polling.functions generated.functions := by
  have accepted : (run (generate polling .builtin {})).1.toBool = true := by decide +kernel
  cases result : (run (generate polling .builtin {})).1 with
  | error error => simp [result, Except.toBool] at accepted
  | ok generated =>
      obtain ⟨signatures, collected, shows⟩ := generate_shows result
      exact ⟨generated, signatures, rfl, collected, shows⟩

end Codegen

end LlvmBackend
