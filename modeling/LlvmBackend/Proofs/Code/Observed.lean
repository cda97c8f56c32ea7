import LlvmBackend.Proofs.Code.Parts
import LlvmBackend.Proofs.Code.Traces

/-! # What is observed of walks

The calls and the branches of a walk, except for those that only tear values down. Main statement:
complete walks through code that stands somewhere are observed as the traces of the code
(`Laid.observed_iff`).
-/

namespace LlvmBackend

open Ir

/-- What is observed of a move, if some spots are hidden. -/
def Ir.Move.observed (hidden : Spot → Bool) : Move → List Event
  | .instr spot i => if hidden spot then [] else i.calls
  | .branch spot _ taken _ => if hidden spot then [] else [.branch taken]
  | .jump _ _ | .ret _ _ => []

/-- A spot is there only to tear a value down: by a call, or by a branch around such a call. -/
inductive Ir.Table.TearsDown (table : Table) (teardown : Instr → Prop) : Spot → Prop where
  | call : table.Holds p i → teardown i → TearsDown table teardown p
  | guard :
      table.Ends p (.condBr flag owned fin) →
      table.Holds (.start owned) i →
      teardown i →
      table.Ends (Spot.start owned).next (.br fin) →
      TearsDown table teardown p

/-! ## Hidden spots -/

/-- A branch that releases a value stands around one instruction that does so. -/
def Code.Guarded : Code → Prop
  | .seq first second => first.Guarded ∧ second.Guarded
  | .fork role _ _ fin whenTrue whenFalse =>
    (role = .release → ∃ i source, whenTrue = .seq (.instr .release i) (.jump source fin)) ∧
      whenTrue.Guarded ∧ whenFalse.Guarded
  | .loop _ _ test _ turn => test.Guarded ∧ turn.Guarded
  | .skip | .instr _ _ | .read _ _ _ | .slot _ _ | .jump _ _ | .ret _ => True

theorem Code.guarded_sides {taken : Bool} {flag : Operand} {a b : BlockId} {first second : Code} :
    (sides taken flag a b first second).Guarded ↔ first.Guarded ∧ second.Guarded := by
  cases taken <;> simp [sides, Guarded, and_comm]

theorem Merge.guarded {a b : BlockId} (merge : Merge a b s code t) : code.Guarded := by
  induction merge with
  | skip | instr => trivial
  | seq _ _ ih₁ ih₂ => exact ⟨ih₁, ih₂⟩

/-- Only guards of releases are built as branches that release. -/
theorem Build.guarded {exit : Option BlockId} (build : Build exit s code t) : code.Guarded := by
  induction build with
  | skip | read | slot | instr | ret => trivial
  | seq _ _ _ ih₁ ih₂ => exact ⟨ih₁, ih₂⟩
  | guard => exact ⟨fun _ => ⟨_, _, rfl⟩, ⟨trivial, trivial⟩, trivial⟩
  | join _ _ _ _ merge ih₁ ih₂ =>
      exact ⟨Code.guarded_sides.mpr ⟨⟨ih₁, trivial⟩, ih₂, trivial⟩, merge.guarded⟩
  | loop _ _ _ ih₁ ih₂ => exact ⟨trivial, ih₁, ih₂⟩
  | chain _ ih => exact ih
  | lastArm _ ih => exact ⟨by simp, ih, trivial⟩
  | arm _ _ ih₁ ih₂ => exact ⟨by simp, ih₁, ih₂⟩
  | leads _ _ ih => exact ⟨ih, trivial⟩
  | returns _ _ ih => exact ih

/-- Marked spots of code are there only to tear values down. -/
theorem Laid.restrict {table : Table} {marks : Spot → Prop} {teardown : Instr → Prop} {p q : Spot}
    {code : Code} (laid : Laid table marks p code q) (guarded : code.Guarded)
    (released : ∀ i, .instr .release i ∈ code.parts → teardown i) :
    Laid table (fun spot => marks spot ∧ table.TearsDown teardown spot) p code q := by
  induction laid with
  | skip => exact .skip
  | read => exact .read
  | slot => exact .slot
  | jump ends => exact .jump ends
  | ret ends => exact .ret ends
  | seq _ _ ih₁ ih₂ =>
      exact .seq (ih₁ guarded.1 fun i mem => released i (List.mem_append_left _ mem))
        (ih₂ guarded.2 fun i mem => released i (List.mem_append_right _ mem))
  | @instr p i role holds mark =>
      refine .instr holds ⟨fun h => mark.mp h.1, fun release => ⟨mark.mpr release, ?_⟩⟩
      subst release
      exact .call holds (released i (List.mem_singleton_self _))
  | @fork p flag onTrue onFalse role whenTrue q whenFalse ends mark laid₁ _ ih₁ ih₂ =>
      obtain ⟨guard, guarded₁, guarded₂⟩ := guarded
      have released₁ : ∀ i, .instr .release i ∈ whenTrue.parts → teardown i :=
        fun i mem => released i (by simp [Code.parts, mem])
      refine .fork ends ⟨fun h => mark.mp h.1, fun release => ⟨mark.mpr release, ?_⟩⟩
        (ih₁ guarded₁ released₁) (ih₂ guarded₂ fun i mem => released i (by simp [Code.parts, mem]))
      obtain ⟨i, source, rfl⟩ := guard release
      cases laid₁ with
      | seq laidCall laidJump =>
          cases laidCall with
          | instr holds _ =>
              cases laidJump with
              | jump back => exact .guard ends holds (released₁ i (by simp [Code.parts])) back
  | loop _ ends unmarked _ ih₁ ih₂ =>
      refine .loop (ih₁ guarded.1 fun i mem => released i ?_) ends (fun h => unmarked h.1)
        (ih₂ guarded.2 fun i mem => released i ?_)
      · simp [Code.parts, mem]
      · simp [Code.parts, mem]

/-! ## Observation -/

theorem Instr.filter_calls (i : Instr) : i.calls.filter Event.isControl = i.calls := by
  cases eq : i.callee? <;> simp [calls, eq, Event.isControl]

/-- What is observed of acts is what is observed of their moves. -/
theorem Act.filter_trace {hidden : Spot → Bool} {acts : List Act}
    (agree : ∀ act ∈ acts, act.Agrees fun spot => hidden spot) :
    (trace acts).filter Event.isControl = (moves acts).flatMap (Move.observed hidden) := by
  induction acts with
  | nil => rfl
  | cons act acts ih =>
      obtain ⟨agrees, others⟩ := List.forall_mem_cons.mp agree
      rw [trace_cons, List.filter_append, ih others]
      cases act with
      | read => rfl
      | move role move =>
          rw [moves_move, List.flatMap_cons]
          congr 1
          cases move with
          | jump | ret => rfl
          | instr spot i =>
              by_cases release : role = .release
              · simp [events, Role.events, Move.observed, agrees.mpr release, release]
              · simp only [Move.observed, if_neg (mt agrees.mp release)]
                cases role with
                | release => exact absurd rfl release
                | plain | result => exact i.filter_calls
                | write name _ => simp [events, Role.events, i.filter_calls, Event.isControl]
          | branch spot flag taken target =>
              by_cases release : role = .release
              · simp [events, Move.observed, agrees.mpr release, release]
              · simp [events, Move.observed, mt agrees.mp release, release, Event.isControl]

section

variable {table : Table} {p q : Spot} {code : Code} {hidden : Spot → Bool}
  (laid : Laid table (fun spot => hidden spot) p code q)
  (returns : ∀ acts stop, Exec p code acts stop → stop = none)
include laid returns

/-- A walk through code that returns can be completed. -/
theorem Laid.completes {moves : List Move} {stop : Option Spot}
    (walk : Walk table (some p) moves stop) :
    ∃ more, Walk table (some p) (moves ++ more) none := by
  cases laid.follows walk with
  | beyond exec _ => cases returns _ _ exec
  | within exec eq _ =>
      have along := (exec.walk laid).1
      rw [returns _ _ exec, eq] at along
      exact ⟨_, along⟩

/-- Complete walks through code that returns are observed as the traces of the code. -/
theorem Laid.observed_iff (trace : List Event) :
    (∃ moves, Walk table (some p) moves none ∧ moves.flatMap (Move.observed hidden) = trace) ↔
      ∃ events left, code.traces events left ∧ events.filter Event.isControl = trace := by
  constructor
  · rintro ⟨moves, walk, rfl⟩
    cases laid.follows walk with
    | beyond exec _ => cases returns _ _ exec
    | within exec eq stops =>
        obtain ⟨rfl, rfl⟩ := stops rfl
        rw [List.append_nil] at eq
        exact ⟨_, _, exec.mem_traces, by rw [← eq, Act.filter_trace (exec.marked laid)]⟩
  · rintro ⟨events, left, traces, rfl⟩
    obtain ⟨acts, stop, exec, rfl, _⟩ := laid.exists_exec traces
    cases returns _ _ exec
    exact ⟨_, (exec.walk laid).1, (Act.filter_trace (exec.marked laid)).symm⟩

end

end LlvmBackend
