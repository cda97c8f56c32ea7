import LlvmBackend.Proofs.Code
import LlvmBackend.Proofs.Traces

/-! # Traces of code

What can be observed while a piece of code is carried out. Tearing values down is not observed.
Wherever code stands, the traces of its ways are those that its structure gives.
-/

namespace LlvmBackend

open Ir

/-- The symbol that an instruction calls. -/
def Instr.callee? : Instr → Option String
  | .call _ _ callee _ => some callee
  | _ => none

/-- What is observed of an instruction. -/
def Instr.calls (i : Instr) : List Event := i.callee?.toList.map .call

/-- What is observed of an instruction, by why it was emitted. -/
def Role.events (role : Role) (i : Instr) : List Event :=
  match role with
  | .release => []
  | .plain | .result => i.calls
  | .write name _ => i.calls ++ [.write name]

namespace Act

/-- What is observed of an act. -/
def events : Act → List Event
  | .move role (.instr _ i) => role.events i
  | .move role (.branch _ _ taken _) => if role = .release then [] else [.branch taken]
  | .move _ (.jump _ _) | .move _ (.ret _ _) => []
  | .read name rebound _ => [.read name rebound]

/-- What is observed of acts. -/
def trace (acts : List Act) : List Event := acts.flatMap events

@[simp] theorem trace_nil : trace [] = [] := rfl

@[simp] theorem trace_cons (act : Act) (acts : List Act) :
    trace (act :: acts) = act.events ++ trace acts := rfl

@[simp] theorem trace_append (first second : List Act) :
    trace (first ++ second) = trace first ++ trace second := by
  simp [trace]

end Act

/-- The traces that the structure of code gives. -/
def Code.traces : Code → Traces
  | .skip | .slot _ _ | .jump _ _ => .one []
  | .seq first second => first.traces.seq second.traces
  | .instr role i => .one (role.events i)
  | .read name rebound _ => .one [.read name rebound]
  | .fork role _ _ _ whenTrue whenFalse =>
    if role = .release then .either whenTrue.traces whenFalse.traces
    else .branch whenTrue.traces whenFalse.traces
  | .loop _ _ test _ turn => .Loop test.traces turn.traces
  | .ret _ => .leaves

namespace Code

theorem traces_sides {taken : Bool} {flag : Operand} {a b : BlockId} {first second : Code} :
    (sides taken flag a b first second).traces =
      if taken then .branch first.traces second.traces
      else .branch second.traces first.traces := by
  cases taken <;> simp [sides, traces]

@[simp] theorem traces_seq_jump {code : Code} {source fin : BlockId} :
    (seq code (jump source fin)).traces = code.traces := Traces.seq_nil

theorem traces_leading {code : Code} {ended : Bool} {source fin : BlockId} :
    (code.leading ended source fin).traces = code.traces := by
  cases ended with
  | true => rfl
  | false => exact traces_seq_jump

end Code

/-- The trace of carrying code out is one of its traces. -/
theorem Exec.mem_traces {p : Spot} {code : Code} {acts : List Act} {stop : Option Spot}
    (exec : Exec p code acts stop) : code.traces (Act.trace acts) stop.isNone := by
  induction exec with
  | skip | slot => exact ⟨rfl, rfl⟩
  | instr | read | jump | ret => exact ⟨by simp [Act.events], rfl⟩
  | seq _ _ ih₁ ih₂ => exact .inl ⟨_, _, Act.trace_append _ _, ih₁, ih₂⟩
  | seqReturns _ ih => exact .inr ⟨rfl, ih⟩
  | @forkTrue onTrue whenTrue as r p role flag onFalse whenFalse _ ih =>
      by_cases release : role = .release
      · simpa [Code.traces, release, Act.events] using .inl ih
      · simp only [Code.traces, if_neg release, Act.trace_cons, Act.events]
        exact .inl (Traces.one_seq.mpr ⟨_, rfl, ih⟩)
  | @forkFalse onFalse whenFalse as r p role flag onTrue whenTrue _ ih =>
      by_cases release : role = .release
      · simpa [Code.traces, release, Act.events] using .inr ih
      · simp only [Code.traces, if_neg release, Act.trace_cons, Act.events]
        exact .inr (Traces.one_seq.mpr ⟨_, rfl, ih⟩)
  | loopEnds _ ih =>
      rw [Act.trace_append]
      exact .ends ih
  | loopTurns _ _ _ ih₁ ih₂ ih₃ =>
      have := Traces.Loop.turns ih₁ ih₂ ih₃
      simpa [Act.events, Code.traces] using this
  | turnReturns _ _ ih₁ ih₂ =>
      have := Traces.Loop.turnLeaves ih₁ ih₂
      simpa [Act.events, Code.traces] using this
  | testReturns _ ih => exact .testLeaves ih

/-- Control that does not leave the function stands somewhere. -/
theorem exists_some {p : Spot} {code : Code} {trace : List Event}
    (h : ∃ acts stop, Exec p code acts stop ∧ Act.trace acts = trace ∧ stop.isNone = false) :
    ∃ acts q, Exec p code acts (some q) ∧ Act.trace acts = trace := by
  obtain ⟨acts, stop, exec, eq, stays⟩ := h
  cases stop with
  | none => cases stays
  | some q => exact ⟨acts, q, exec, eq⟩

/-- Each trace of code that stands somewhere is that of a way through it. -/
theorem Laid.exists_exec {table : Table} {marks : Spot → Prop} {p q : Spot} {code : Code}
    (laid : Laid table marks p code q) {trace : List Event} {left : Bool}
    (h : code.traces trace left) :
    ∃ acts stop, Exec p code acts stop ∧ Act.trace acts = trace ∧ stop.isNone = left := by
  induction laid generalizing trace left with
  | skip =>
      obtain ⟨rfl, rfl⟩ := h
      exact ⟨_, _, .skip, rfl, rfl⟩
  | slot =>
      obtain ⟨rfl, rfl⟩ := h
      exact ⟨_, _, .slot, rfl, rfl⟩
  | read =>
      obtain ⟨rfl, rfl⟩ := h
      exact ⟨_, _, .read, rfl, rfl⟩
  | instr =>
      obtain ⟨rfl, rfl⟩ := h
      exact ⟨_, _, .instr, by simp [Act.events], rfl⟩
  | jump =>
      obtain ⟨rfl, rfl⟩ := h
      exact ⟨_, _, .jump, rfl, rfl⟩
  | ret =>
      obtain ⟨rfl, rfl⟩ := h
      exact ⟨_, _, .ret, rfl, rfl⟩
  | seq laid₁ _ ih₁ ih₂ =>
      rcases h with ⟨before, after, rfl, h₁, h₂⟩ | ⟨rfl, h₁⟩
      · obtain ⟨as, middle, exec₁, rfl⟩ := exists_some (ih₁ h₁)
        cases (exec₁.walk laid₁).2 _ rfl
        obtain ⟨bs, stop, exec₂, rfl, left⟩ := ih₂ h₂
        exact ⟨_, _, .seq exec₁ exec₂, Act.trace_append _ _, left⟩
      · obtain ⟨as, stop, exec₁, rfl, left⟩ := ih₁ h₁
        cases Option.isNone_iff_eq_none.mp left
        exact ⟨_, _, .seqReturns exec₁, rfl, rfl⟩
  | @fork p flag onTrue onFalse role whenTrue q whenFalse _ _ _ _ ih₁ ih₂ =>
      by_cases release : role = .release
      · simp only [Code.traces, if_pos release] at h
        rcases h with h | h
        · obtain ⟨as, stop, exec, rfl, left⟩ := ih₁ h
          exact ⟨_, _, .forkTrue exec, by simp [Act.events, release], left⟩
        · obtain ⟨as, stop, exec, rfl, left⟩ := ih₂ h
          exact ⟨_, _, .forkFalse exec, by simp [Act.events, release], left⟩
      · simp only [Code.traces, if_neg release] at h
        rcases h with h | h
        · obtain ⟨rest, rfl, inside⟩ := Traces.one_seq.mp h
          obtain ⟨as, stop, exec, rfl, left⟩ := ih₁ inside
          exact ⟨_, _, .forkTrue exec, by simp [Act.events, release], left⟩
        · obtain ⟨rest, rfl, inside⟩ := Traces.one_seq.mp h
          obtain ⟨as, stop, exec, rfl, left⟩ := ih₂ inside
          exact ⟨_, _, .forkFalse exec, by simp [Act.events, release], left⟩
  | @loop p test q flag body fin turn laidTest _ _ laidTurn ihTest ihTurn =>
      -- The induction is on the turns that the trace shows.
      have turns : ∀ trace left, Traces.Loop test.traces turn.traces trace left →
          ∃ acts stop, Exec p (.loop body fin test flag turn) acts stop ∧
            Act.trace acts = trace ∧ stop.isNone = left := by
        intro trace left h
        induction h with
        | ends h₁ =>
            obtain ⟨as, q', exec₁, rfl⟩ := exists_some (ihTest h₁)
            exact ⟨_, _, .loopEnds exec₁, by simp [Act.events], rfl⟩
        | turns h₁ h₂ _ ih =>
            obtain ⟨as, q', exec₁, rfl⟩ := exists_some (ihTest h₁)
            obtain ⟨bs, p', exec₂, rfl⟩ := exists_some (ihTurn h₂)
            cases (exec₂.walk laidTurn).2 _ rfl
            obtain ⟨cs, stop, exec₃, rfl, left⟩ := ih
            exact ⟨_, _, .loopTurns exec₁ exec₂ exec₃, by simp [Act.events], left⟩
        | turnLeaves h₁ h₂ =>
            obtain ⟨as, q', exec₁, rfl⟩ := exists_some (ihTest h₁)
            obtain ⟨bs, stop, exec₂, rfl, left⟩ := ihTurn h₂
            cases Option.isNone_iff_eq_none.mp left
            exact ⟨_, _, .turnReturns exec₁ exec₂, by simp [Act.events], rfl⟩
        | testLeaves h₁ =>
            obtain ⟨as, stop, exec₁, rfl, left⟩ := ihTest h₁
            cases Option.isNone_iff_eq_none.mp left
            exact ⟨_, _, .testReturns exec₁, rfl, rfl⟩
      exact turns trace left h

end LlvmBackend
