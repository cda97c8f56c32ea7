import LlvmBackend.Proofs.Code.Parting
import LlvmBackend.Proofs.Code.Traces
import LlvmBackend.Proofs.Returning

/-! # How code leaves its function

Code that leaves the function by pieces of given forms, and passes results on in them only. A way
through it that leaves the function carries such a piece out last.
-/

namespace LlvmBackend

open Ir

namespace Code

/-- Control can take some way through code. -/
theorem exists_trace (code : Code) : ∃ trace left, code.traces trace left := by
  induction code with
  | skip | instr | read | slot | jump => exact ⟨_, _, rfl, rfl⟩
  | ret => exact ⟨_, _, rfl, rfl⟩
  | seq _ _ ih₁ ih₂ =>
      obtain ⟨before, left, h₁⟩ := ih₁
      cases left with
      | true => exact ⟨_, _, .inr ⟨rfl, h₁⟩⟩
      | false =>
          obtain ⟨after, left, h₂⟩ := ih₂
          exact ⟨_, _, .inl ⟨before, after, rfl, h₁, h₂⟩⟩
  | fork role _ _ _ _ _ ih₁ _ =>
      obtain ⟨trace, left, h₁⟩ := ih₁
      by_cases release : role = .release
      · exact ⟨trace, left, by simpa [traces, release] using .inl h₁⟩
      · refine ⟨.branch true :: trace, left, ?_⟩
        simp only [traces, if_neg release]
        exact .inl (Traces.one_seq.mpr ⟨trace, rfl, h₁⟩)
  | loop _ _ _ _ _ ih₁ _ =>
      obtain ⟨before, left, h₁⟩ := ih₁
      cases left with
      | true => exact ⟨_, _, .testLeaves h₁⟩
      | false => exact ⟨_, _, .ends h₁⟩

/-- Control leaves the function on some way through code with a return in it. -/
theorem exists_trace_of_ret {code : Code} {value : Option TypedOperand}
    (mem : .ends (.ret value) ∈ code.parts) : ∃ trace, code.traces trace true := by
  induction code with
  | skip | instr | read | slot | jump => simp [parts] at mem
  | ret => exact ⟨_, rfl, rfl⟩
  | seq first second ih₁ ih₂ =>
      rcases List.mem_append.mp mem with mem | mem
      · obtain ⟨trace, h₁⟩ := ih₁ mem
        exact ⟨trace, .inr ⟨rfl, h₁⟩⟩
      · obtain ⟨after, h₂⟩ := ih₂ mem
        obtain ⟨before, left, h₁⟩ := first.exists_trace
        cases left with
        | true => exact ⟨before, .inr ⟨rfl, h₁⟩⟩
        | false => exact ⟨_, .inl ⟨before, after, rfl, h₁, h₂⟩⟩
  | fork role _ _ _ whenTrue whenFalse ih₁ ih₂ =>
      have side : (∃ trace, whenTrue.traces trace true) ∨ ∃ trace, whenFalse.traces trace true := by
        rcases List.mem_cons.mp mem with eq | mem
        · cases eq
        · exact (List.mem_append.mp mem).imp ih₁ ih₂
      simp only [traces]
      obtain ⟨trace, h⟩ | ⟨trace, h⟩ := side
      · split
        · exact ⟨trace, .inl h⟩
        · exact ⟨_, .inl (Traces.one_seq.mpr ⟨trace, rfl, h⟩)⟩
      · split
        · exact ⟨trace, .inr h⟩
        · exact ⟨_, .inr (Traces.one_seq.mpr ⟨trace, rfl, h⟩)⟩
  | loop _ _ test _ _ ih₁ ih₂ =>
      rcases List.mem_append.mp mem with mem | mem
      · obtain ⟨trace, h₁⟩ := ih₁ mem
        exact ⟨trace, .testLeaves h₁⟩
      · obtain ⟨during, h₂⟩ := ih₂ ((List.mem_cons.mp mem).resolve_left (by simp))
        obtain ⟨before, left, h₁⟩ := test.exists_trace
        cases left with
        | true => exact ⟨before, .testLeaves h₁⟩
        | false => exact ⟨_, .turnLeaves h₁ h₂⟩

/-- Code that leaves the function by pieces of given forms only, and passes no result on outside
    of them. -/
inductive Leaving (leave : Code → Prop) : Code → Prop where
  | inner : code.traces.Stays → (∀ i, .instr .result i ∉ code.parts) → Leaving leave code
  | leaves : leave code → Leaving leave code
  | seq : Leaving leave first → Leaving leave second → Leaving leave (.seq first second)
  | fork :
      Leaving leave whenTrue →
      Leaving leave whenFalse →
      Leaving leave (.fork role flag onTrue onFalse whenTrue whenFalse)
  | loop : Leaving leave test → Leaving leave turn → Leaving leave (.loop body fin test flag turn)

namespace Leaving

variable {leave : Code → Prop} {code : Code}

theorem jump {source target : BlockId} : Leaving leave (.jump source target) :=
  .inner Traces.stays_one (by simp [parts])

theorem skip : Leaving leave .skip := .inner Traces.stays_one (by simp [parts])

theorem leading {ended : Bool} {source fin : BlockId} (leaving : code.Leaving leave) :
    (code.leading ended source fin).Leaving leave := by
  cases ended with
  | true => exact leaving
  | false => exact leaving.seq jump

/-- Results are passed on right before control leaves the function if they are in the pieces by which
    it does. -/
theorem parting (leaving : code.Leaving leave) (last : ∀ code, leave code → code.Parting) :
    code.Parting := by
  induction leaving with
  | inner _ free => exact .free free
  | leaves leaves => exact last _ leaves
  | seq _ _ ih₁ ih₂ => exact ih₁.seq ih₂
  | fork _ _ ih₁ ih₂ => exact ih₁.fork ih₂
  | loop _ _ ih₁ ih₂ => exact ih₁.loop ih₂

/-- The returns of code are in the pieces by which it leaves the function. -/
theorem exists_ret (leaving : code.Leaving leave) {value : Option TypedOperand}
    (mem : .ends (.ret value) ∈ code.parts) :
    ∃ last, leave last ∧ .ends (.ret value) ∈ last.parts := by
  induction leaving with
  | inner stays =>
      obtain ⟨trace, leaves⟩ := exists_trace_of_ret mem
      exact absurd leaves (stays trace)
  | leaves leaves => exact ⟨_, leaves, mem⟩
  | seq _ _ ih₁ ih₂ => exact (List.mem_append.mp mem).elim ih₁ ih₂
  | fork _ _ ih₁ ih₂ =>
      exact (List.mem_append.mp ((List.mem_cons.mp mem).resolve_left (by simp))).elim ih₁ ih₂
  | loop _ _ ih₁ ih₂ =>
      rcases List.mem_append.mp mem with mem | mem
      · exact ih₁ mem
      · exact ih₂ ((List.mem_cons.mp mem).resolve_left (by simp))

end Leaving

end Code

/-- Acts none of which passes a result on, but for those of the piece of code by which control leaves
    the function. -/
def Act.Leaving (leave : Code → Prop) (acts : List Act) (stop : Option Spot) : Prop :=
  ∃ before last, acts = before ++ last ∧ (∀ act ∈ before, act.isResult = false) ∧
    (stop ≠ none → last = []) ∧ (stop = none → ∃ p code, leave code ∧ Exec p code last none)

namespace Act.Leaving

variable {leave : Code → Prop} {first second acts : List Act} {spot : Spot} {stop : Option Spot}

theorem of_free (free : ∀ act ∈ acts, act.isResult = false) : Leaving leave acts (some spot) :=
  ⟨acts, [], (List.append_nil _).symm, free, fun _ => rfl, by simp⟩

theorem append (stays : Leaving leave first (some spot)) (leaving : Leaving leave second stop) :
    Leaving leave (first ++ second) stop := by
  obtain ⟨before, _, rfl, free, rest, _⟩ := stays
  obtain ⟨before', last, rfl, free', ends⟩ := leaving
  rw [rest (by simp), List.append_nil, ← List.append_assoc]
  exact ⟨before ++ before', last, rfl, List.forall_mem_append.mpr ⟨free, free'⟩, ends⟩

end Act.Leaving

/-- Carrying out code leaves the function by a piece of one of the given forms, and passes no result
    on before. -/
theorem Exec.leaving {leave : Code → Prop} (departs : ∀ code, leave code → code.traces.Departs)
    {p : Spot} {code : Code} {acts : List Act} {stop : Option Spot} (leaving : code.Leaving leave)
    (exec : Exec p code acts stop) : Act.Leaving leave acts stop := by
  induction leaving generalizing p acts stop with
  | inner stays free =>
      cases stop with
      | none => exact absurd exec.mem_traces (stays _)
      | some => exact .of_free (exec.free free)
  | leaves leaves =>
      cases stop with
      | none => exact ⟨[], acts, rfl, by simp, by simp, fun _ => ⟨p, _, leaves, exec⟩⟩
      | some => exact absurd exec.mem_traces (departs _ leaves _)
  | seq _ _ ih₁ ih₂ =>
      cases exec with
      | seq first second => exact (ih₁ first).append (ih₂ second)
      | seqReturns first => exact ih₁ first
  | @fork _ _ role _ _ _ _ _ ih₁ ih₂ =>
      have branch : ∀ {flag taken target}, Act.Leaving leave
          [Act.move role (.branch p flag taken target)] (some (.start target)) :=
        .of_free (by simp [Act.isResult])
      cases exec with
      | forkTrue side => exact branch.append (ih₁ side)
      | forkFalse side => exact branch.append (ih₂ side)
  | loop _ _ ihTest ihTurn =>
      exact exec.loop_induct (fun _ _ _ _ => .append) (fun _ _ _ => .of_free (by simp [Act.isResult]))
        (fun _ _ _ => ihTest) fun _ _ _ => ihTurn

end LlvmBackend
