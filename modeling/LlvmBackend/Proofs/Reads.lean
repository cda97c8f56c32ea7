import LlvmBackend.Proofs.Opening
import LlvmBackend.Proofs.Translation.Leaving

/-! # What look-ups find in emitted functions

When a look-up in a function finds the value that its name was given last on the way. A name that is
bound before the body gets a slot with the first binding in the body, and nothing is stored there
before that binding is carried out; look-ups in front of it in the text keep to the old storage.
-/

namespace LlvmBackend

open Ir Lowering Reference

/-- The moves through instructions that stand one after the other. -/
def Ir.Spot.along (p : Spot) : List Instr → List Move
  | [] => []
  | i :: rest => .instr p i :: p.next.along rest

/-- Walks through a function carry out code behind some instructions, and return behind it. -/
structure Ir.Function.Embeds (function : Function) (before : List Instr) (code : Code) : Prop where
  carries : ∀ moves stop, function.Walk moves stop → ∃ acts stop' last,
    Exec ⟨function.entry, before.length⟩ code acts stop' ∧
    (∀ move ∈ last, ∃ p value, move = .ret p value) ∧
    moves <+: (Spot.start function.entry).along before ++ (Act.moves acts ++ last)
  walks : ∀ acts stop, Exec ⟨function.entry, before.length⟩ code acts stop → ∃ last,
    (∀ move ∈ last, ∃ p value, move = .ret p value) ∧
    function.Walk ((Spot.start function.entry).along before ++ (Act.moves acts ++ last)) none

/-- Code that stands for the body of a function: walks through the emitted function carry it out, and
    what is observed of this is a trace of the body. -/
structure Embodies (types : Registry) (signatures : SignatureTable) (entry : String)
    (declared : Tree.Function) (emitted : Function) (start : Start) (code : Code) : Prop where
  starts : Starts types entry declared start
  lowers : ∃ names ended, Translation.Lowers ⟨types, signatures, start.outcome⟩
    (.suite declared.body) start.names names ended code
  embeds : ∃ before, emitted.Embeds before code
  traces : ∀ p acts stop, Exec p code acts stop →
    suiteTraces types signatures (.opened (opening types entry declared)) declared.body
      (Act.trace acts) stop.isNone

/-! ## Walks -/

theorem Exec.straight {p : Spot} {instrs : List Instr} {acts : List Act} {stop : Option Spot}
    (exec : Exec p (.straight instrs) acts stop) :
    Act.moves acts = p.along instrs ∧ stop = some ⟨p.block, p.index + instrs.length⟩ := by
  induction instrs generalizing p acts with
  | nil =>
      cases exec
      exact ⟨rfl, rfl⟩
  | cons i rest ih =>
      cases exec with
      | seq first second =>
          cases first
          obtain ⟨moves, rfl⟩ := ih second
          refine ⟨congrArg _ moves, ?_⟩
          rw [List.length_cons, Spot.next_block, Spot.next_index, Nat.add_right_comm, Nat.add_assoc]
      | seqReturns first => cases first

/-- Behind a body there is at most a return. -/
theorem Exec.returning {p : Spot} {code : Code} {ended : Bool} {value : Option TypedOperand}
    {acts : List Act} {stop : Option Spot} (exec : Exec p (code.returning ended value) acts stop) :
    ∃ inner stop' last, Exec p code inner stop' ∧ (∀ move ∈ last, ∃ q value, move = .ret q value) ∧
      Act.moves acts = Act.moves inner ++ last := by
  cases ended with
  | true => exact ⟨acts, stop, [], exec, by simp, (List.append_nil _).symm⟩
  | false =>
      cases exec with
      | seq first second =>
          cases second
          exact ⟨_, _, [.ret _ value], first, by simp, Act.moves_append _ _⟩
      | seqReturns first => exact ⟨acts, none, [], first, by simp, (List.append_nil _).symm⟩

theorem Exec.then_returns {p : Spot} {code : Code} {acts : List Act} {stop : Option Spot}
    (exec : Exec p code acts stop) (ended : Bool) (value : Option TypedOperand) :
    ∃ more stop', Exec p (code.returning ended value) (acts ++ more) stop' ∧
      ∀ move ∈ Act.moves more, ∃ q value, move = .ret q value := by
  cases ended with
  | true => exact ⟨[], stop, by rwa [List.append_nil], by simp⟩
  | false =>
      cases stop with
      | none => exact ⟨[], none, by simpa using .seqReturns exec, by simp⟩
      | some q => exact ⟨_, none, .seq exec .ret, by simp⟩

namespace Finished

variable {start : Start} {function : Function} {slots : List Instr} {ended : Bool} {code : Code}
  {site : Site}

theorem embeds (finished : Finished start function slots (code.returning ended start.atEnd) site) :
    function.Embeds (slots ++ start.before) code where
  carries := by
    intro moves stop walk
    obtain ⟨marks, laid⟩ := finished.laid
    cases (laid (.start 0)).follows walk with
    | beyond exec _ => cases finished.returns exec
    | within exec eq _ =>
        cases exec with
        | seq first second =>
            obtain ⟨along, behind⟩ := first.straight
            cases behind
            obtain ⟨inner, stop', last, exec, returns, moves'⟩ := second.returning
            rw [Spot.start_index, Nat.zero_add] at exec
            refine ⟨inner, stop', last, exec, returns, _, eq.symm.trans ?_⟩
            rw [Act.moves_append, along, moves']
        | seqReturns first => cases first.straight.2
  walks := by
    intro acts stop exec
    obtain ⟨marks, laid⟩ := finished.laid
    have laid := laid (.start 0)
    cases laid with
    | seq laidFirst laidSecond =>
        obtain ⟨before, stop', first⟩ := laidFirst.exec
        obtain ⟨along, rfl⟩ := first.straight
        obtain ⟨more, stop'', second, returns⟩ := exec.then_returns ended start.atEnd
        rw [Spot.start_index, Nat.zero_add, Spot.start_block] at first
        have whole := Exec.seq first second
        have walk := (whole.walk (.seq laidFirst laidSecond)).1
        rw [finished.returns whole, Act.moves_append, Act.moves_append, along] at walk
        exact ⟨_, returns, walk⟩

end Finished

/-- The code that a function was finished with stands for the body that it was lowered from. -/
theorem Finished.embodies {types : Registry} {signatures : SignatureTable} {entry : String}
    {source : Tree.Function} {start : Start} {function : Function} {names : Names} {ended : Bool}
    {code : Code} {slots : List Instr} {site : Site} (starts : Starts types entry source start)
    (lowers : Translation.Lowers ⟨types, signatures, start.outcome⟩ (.suite source.body) start.names
      names ended code)
    (finished : Finished start function slots (code.returning ended start.atEnd) site) :
    Embodies types signatures entry source function start code := by
  refine ⟨starts, ⟨names, ended, lowers⟩, ⟨_, finished.embeds⟩, fun p acts stop exec => ?_⟩
  have traces := exec.mem_traces
  rw [lowers.traces, Start.typing_of_starts starts] at traces
  exact traces

theorem Emitted.exists_code {types : Registry} {signatures : SignatureTable} {entry : String}
    {source : Tree.Function} {start : Start} {function : Function}
    (starts : Starts types entry source start)
    (emitted : Emitted types signatures start source.body function) :
    ∃ code, Embodies types signatures entry source function start code := by
  obtain ⟨names, ended, code, slots, site, lowers, finished⟩ := emitted.finished starts.plain
  exact ⟨code, finished.embodies starts lowers⟩

/-! ## Look-ups -/

/-- If each name is bound to values of one type, look-ups find what their names were given last
    exactly if their names are not bound before the body, or are bound in the body both in the text
    before the look-up and on the way to it, or neither. -/
theorem Embodies.current_iff {types : Registry} {signatures : SignatureTable} {entry : String}
    {declared : Tree.Function} {emitted : Function} {start : Start} {code : Code}
    (embodies : Embodies types signatures entry declared emitted start code)
    (typed : SingleTyped types signatures (opening types entry declared) declared.body)
    {p : Spot} {before after : List Act} {name : String} {rebound : Bool} {value : Value}
    {stop : Option Spot}
    (exec : Exec p code (before ++ .read name rebound value :: after) stop) :
    value.Current start.names before name ↔
      name ∉ (opening types entry declared).map Prod.fst ∨
        (rebound ↔ ∃ act ∈ before, act.writes name) := by
  obtain ⟨typeOf, typed⟩ := typed
  obtain ⟨names, ended, lowers⟩ := embodies.lowers
  have unbound : ∀ name, start.names.scopes.lookupLocal name = none := by
    intro name
    cases embodies.starts <;> exact Scopes.lookupLocal_push name
  have empty : start.names.slots = [] := by cases embodies.starts <;> rfl
  have settled : start.names.Settled start.names typeOf :=
    ⟨fun _ _ => rfl, by simp [unbound], by simp [unbound], by simp [empty], List.Subset.refl _⟩
  have typed : ∀ binding ∈ (Translation.Work.suite declared.body).bindings
      ⟨types, signatures, start.outcome⟩ start.names.typing, binding.2 = typeOf binding.1 := by
    rw [Start.typing_of_starts embodies.starts]
    exact fun binding mem => typed binding (List.mem_append_right _ mem)
  obtain ⟨settled, _, resolves⟩ := lowers.resolves settled typed
  rw [← Start.lookup_eq_none_iff embodies.starts]
  exact exec.current_iff settled (Start.given_of_starts embodies.starts) (resolves names (.refl _))
    lowers.parting

namespace Codegen

/-- In each generated function in which names are bound to values of one type each, a look-up finds
    what its name was given last on the way exactly if the name is not bound before the body, or the
    text before the look-up binds it if and only if the way to the look-up does. -/
theorem generate_current_iff {source : Tree.Module} {types : Registry} {options : CodegenOptions}
    {generated : Module} (accepted : (run (generate source types options)).1 = .ok generated) :
    ∃ signatures, SignatureTable.collect source types options.entry = .ok signatures ∧
      List.Forall₂ (fun declared emitted => ∃ start code,
        Embodies types signatures options.entry declared emitted start code ∧
        (SingleTyped types signatures (opening types options.entry declared) declared.body →
          ∀ p before name (rebound : Bool) value after stop,
            Exec p code (before ++ .read name rebound value :: after) stop →
            (value.Current start.names before name ↔
              name ∉ (opening types options.entry declared).map Prod.fst ∨
                (rebound ↔ ∃ act ∈ before, act.writes name))))
        source.functions generated.functions := by
  obtain ⟨_, signatures, collected, renders⟩ := run_ok (generate_yields source types options) accepted
  refine ⟨signatures, collected, renders.imp fun declared emitted renders => ?_⟩
  obtain ⟨start, starts, emitted⟩ := renders
  obtain ⟨code, embodies⟩ := emitted.exists_code starts
  exact ⟨start, code, embodies, fun typed _ _ _ _ _ _ _ exec => embodies.current_iff typed exec⟩

end Codegen

end LlvmBackend
