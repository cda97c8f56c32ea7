import LlvmBackend.Proofs.Code.Leaving
import LlvmBackend.Proofs.Translation.Parts
import LlvmBackend.Proofs.Translation.Traces

/-! # How translated code leaves its function

Control leaves a function behind a result that was stored right before, or at once if there is no
result to give. Nothing but a statement that returns does so.
-/

namespace LlvmBackend

open Ir Reference
open Lowering (resultName success)

namespace Translation

variable {env : Surroundings} {names : Names} {code : Code}

/-- The pieces of code by which a body leaves its function. -/
inductive Departure (env : Surroundings) : Code → Prop where
  | bare :
      env.outcome = .status ∧ value = some success ∨
        env.outcome = .result Registry.void ∧ value = none →
      Departure env (.ret value)
  | result :
      env.outcome = .result type →
      type ≠ Registry.void →
      Departure env (.seq
        (.instr .result (.store ⟨⟨env.types.ir type⟩, operand⟩ (.named resultName))) (.ret none))

theorem Departure.departs (departure : Departure env code) : code.traces.Departs := by
  cases departure with
  | bare => exact Traces.departs_leaves
  | result => exact Traces.departs_leaves.seq_right

theorem Departure.parting (departure : Departure env code) : code.Parting := by
  cases departure with
  | bare => exact .free (by simp [Code.parts])
  | result => exact .result

theorem leaving_of_all {leave : Code → Prop} (stays : code.traces.Stays)
    (free : code.All fun part => ∀ i, part ≠ .instr .result i) : code.Leaving leave :=
  .inner stays fun i mem => free _ mem i rfl

theorem leaving_of_one {leave : Code → Prop} {events : List Event} (traces : code.traces = .one events)
    (free : code.All fun part => ∀ i, part ≠ .instr .result i) : code.Leaving leave :=
  leaving_of_all (traces ▸ Traces.stays_one) free

theorem Evaluates.leaving {leave : Code → Prop} {phrase : Phrase} {vs : List Value}
    (evaluates : Evaluates env names phrase vs code) : code.Leaving leave := by
  refine leaving_of_all ?_ (evaluates.all admits_free (by simp))
  rw [evaluates.traces]
  cases phrase with
  | expr e => exact exprTraces_stays _ e
  | exprs es => exact exprsTraces_stays _ es

theorem Tests.leaving {leave : Code → Prop} {v : Value} {flag : Operand}
    (tests : Tests env v code flag) : code.Leaving leave :=
  leaving_of_one tests.traces (tests.all admits_free)

theorem SlotFor.leaving {leave : Code → Prop} {types : Registry} {names' : Names} {name : String}
    {type : TypeId} {slot : Operand} (slotFor : SlotFor types names name type slot code names') :
    code.Leaving leave :=
  leaving_of_one slotFor.traces.1 (slotFor.all (by simp))

theorem Leaves.leaving {value : Option Expr} (leaves : Leaves env names value code) :
    code.Leaving (Departure env) := by
  cases leaves with
  | bare given => exact .leaves (.bare given)
  | dropped given evaluates => exact evaluates.leaving.seq (.leaves (.bare given))
  | result outcome valued evaluates loads =>
      exact evaluates.leaving.seq ((leaving_of_one loads.traces (loads.all admits_free)).seq
        (.leaves (.result outcome valued)))

/-- Statements leave the function where they return. -/
theorem Lowers.leaving {work : Work} {names names' : Names} {ended : Bool}
    (lowers : Lowers env work names names' ended code) : code.Leaving (Departure env) := by
  induction lowers with
  | assign evaluates loads slotFor =>
      exact evaluates.leaving.seq ((leaving_of_one loads.traces (loads.all admits_free)).seq
        (slotFor.leaving.seq (.inner Traces.stays_one (by simp [Code.parts]))))
  | noArms => exact .seq .skip .jump
  | nil => exact .skip
  | ifChain _ ih | ends _ ih => exact ih
  | whileLoop evaluates tests _ ih =>
      exact .seq .jump ((evaluates.leaving.seq tests.leaving).loop ih.leading)
  | forLoop evaluates _ _ places slotFor _ _ releases ih =>
      refine evaluates.leaving.seq ((leaving_of_one places.traces (places.all admits_free)).seq
        (slotFor.leaving.seq (.seq (.seq .jump (.loop ?_ ih.leading)) ?_)))
      · exact .inner Traces.stays_one (by simp [Code.parts])
      · exact leaving_of_one releases.traces (releases.all admits_free)
  | ret leaves => exact leaves.leaving
  | effect evaluates => exact evaluates.leaving
  | goesOn _ _ ih₁ ih₂ => exact ih₁.seq ih₂
  | otherwise _ ih => exact ih.leading
  | lastArm evaluates tests _ ih =>
      exact (evaluates.leaving.seq tests.leaving).seq (ih.leading.fork .skip)
  | arm evaluates tests _ _ ih₁ ih₂ =>
      exact (evaluates.leaving.seq tests.leaving).seq (ih₁.leading.fork ih₂)

theorem Lowers.parting {work : Work} {names names' : Names} {ended : Bool}
    (lowers : Lowers env work names names' ended code) : code.Parting :=
  lowers.leaving.parting fun _ => Departure.parting

end Translation

end LlvmBackend
