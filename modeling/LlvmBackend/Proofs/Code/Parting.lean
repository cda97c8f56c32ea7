import LlvmBackend.Proofs.Code.Parts

/-! # Results are passed on last

Code that passes a result on only right before control leaves the function. Nothing is looked up
behind that.
-/

namespace LlvmBackend

open Ir

/-- Results are passed on right before control leaves the function. -/
inductive Code.Parting : Code → Prop where
  | free : (∀ i, .instr .result i ∉ code.parts) → Parting code
  | result : Parting (.seq (.instr .result i) (.ret value))
  | seq : Parting first → Parting second → Parting (.seq first second)
  | fork :
      Parting whenTrue →
      Parting whenFalse →
      Parting (.fork role flag onTrue onFalse whenTrue whenFalse)
  | loop : Parting test → Parting turn → Parting (.loop body fin test flag turn)

/-- An act passes on the result of the function. -/
def Act.isResult : Act → Bool
  | .move role (.instr _ _) => role = .result
  | _ => false

/-- Acts of which none looks a name up behind one that passes a result on, which is there only if
    control leaves the function. -/
def Act.Parting (acts : List Act) (stop : Option Spot) : Prop :=
  ∃ first last, acts = first ++ last ∧ (∀ act ∈ first, act.isResult = false) ∧
    (∀ act ∈ last, ∃ role move, act = .move role move) ∧ (stop ≠ none → last = [])

theorem Act.Parting.of_free {acts : List Act} {stop : Option Spot}
    (free : ∀ act ∈ acts, act.isResult = false) : Parting acts stop :=
  ⟨acts, [], (List.append_nil _).symm, free, by simp, fun _ => rfl⟩

/-- Acts before which control did not leave the function. -/
theorem Act.Parting.append {first second : List Act} {stop : Option Spot}
    (free : ∀ act ∈ first, act.isResult = false) (parting : Parting second stop) :
    Parting (first ++ second) stop := by
  obtain ⟨before, last, rfl, none, moves, stays⟩ := parting
  exact ⟨first ++ before, last, (List.append_assoc ..).symm, List.forall_mem_append.mpr ⟨free, none⟩,
    moves, stays⟩

theorem Act.Parting.free {acts : List Act} {spot : Spot} (parting : Parting acts (some spot)) :
    ∀ act ∈ acts, act.isResult = false := by
  obtain ⟨first, last, rfl, free, _, stays⟩ := parting
  rwa [stays (by simp), List.append_nil]

/-- Nothing passes a result on before a look-up. -/
theorem Act.Parting.before {before after : List Act} {name : String} {rebound : Bool} {value : Value}
    {stop : Option Spot} (parting : Parting (before ++ .read name rebound value :: after) stop) :
    ∀ act ∈ before, act.isResult = false := by
  obtain ⟨first, last, eq, free, moves, _⟩ := parting
  rcases List.append_eq_append_iff.mp eq with ⟨more, rfl, _⟩ | ⟨more, _, rfl⟩
  · exact fun act mem => free act (List.mem_append_left _ mem)
  · obtain ⟨role, move, isMove⟩ := moves (.read name rebound value) (by simp)
    cases isMove

theorem Exec.free {p : Spot} {code : Code} {acts : List Act} {stop : Option Spot}
    (exec : Exec p code acts stop) (free : ∀ i, .instr .result i ∉ code.parts) :
    ∀ act ∈ acts, act.isResult = false := by
  intro act mem
  have part := exec.acts_from act mem
  cases act with
  | read => rfl
  | move role move =>
      cases move with
      | jump | branch | ret => rfl
      | instr spot i =>
          refine decide_eq_false fun result => ?_
          subst result
          exact free i part

/-- What appending keeps holds of a loop if it holds of its test, its turns and its branches. -/
theorem Exec.loop_induct {P : List Act → Option Spot → Prop} {p : Spot} {body fin : BlockId}
    {test turn : Code} {flag : Operand} {acts : List Act} {stop : Option Spot}
    (exec : Exec p (.loop body fin test flag turn) acts stop)
    (append : ∀ first second spot stop, P first (some spot) → P second stop →
      P (first ++ second) stop)
    (branch : ∀ q taken target,
      P [.move .plain (.branch q flag taken target)] (some (.start target)))
    (tests : ∀ p acts stop, Exec p test acts stop → P acts stop)
    (turns : ∀ p acts stop, Exec p turn acts stop → P acts stop) : P acts stop := by
  generalize eq : Code.loop body fin test flag turn = code at exec
  induction exec with
  | loopEnds first =>
      cases eq
      exact append _ _ _ _ (tests _ _ _ first) (branch _ _ _)
  | loopTurns first second _ _ _ ih =>
      cases eq
      exact append _ _ _ _ (tests _ _ _ first) (append _ _ _ _ (branch _ _ _)
        (append _ _ _ _ (turns _ _ _ second) (ih rfl)))
  | turnReturns first second =>
      cases eq
      exact append _ _ _ _ (tests _ _ _ first) (append _ _ _ _ (branch _ _ _) (turns _ _ _ second))
  | testReturns first =>
      cases eq
      exact tests _ _ _ first
  | _ => cases eq

/-- Carrying out code passes a result on only right before control leaves the function. -/
theorem Exec.parting {p : Spot} {code : Code} {acts : List Act} {stop : Option Spot}
    (parting : code.Parting) (exec : Exec p code acts stop) : Act.Parting acts stop := by
  induction parting generalizing p acts stop with
  | free none => exact .of_free (exec.free none)
  | result =>
      cases exec with
      | seq first second =>
          cases first
          cases second
          exact ⟨[], _, rfl, by simp, by simp, by simp⟩
      | seqReturns first => cases first
  | seq _ _ ih₁ ih₂ =>
      cases exec with
      | seq first second => exact .append (ih₁ first).free (ih₂ second)
      | seqReturns first => exact ih₁ first
  | @fork _ _ role _ _ _ _ _ ih₁ ih₂ =>
      have silent : ∀ {flag taken target}, ∀ act ∈ [Act.move role (.branch p flag taken target)],
          act.isResult = false := by simp [Act.isResult]
      cases exec with
      | forkTrue side => exact .append silent (ih₁ side)
      | forkFalse side => exact .append silent (ih₂ side)
  | loop _ _ ihTest ihTurn =>
      exact exec.loop_induct (fun _ _ _ _ first => .append first.free)
        (fun _ _ _ => .of_free (by simp [Act.isResult])) (fun _ _ _ => ihTest) fun _ _ _ => ihTurn

end LlvmBackend
