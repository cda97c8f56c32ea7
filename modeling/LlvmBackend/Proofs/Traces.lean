import Mathlib.Logic.Basic

/-! # Traces

What can be observed of a run, and sets of such traces under the ways in which programs are put
together. Which way control takes at a branch is left open.
-/

namespace LlvmBackend

/-- What is observed of a run. -/
inductive Event where
  | call (symbol : String)
  /-- The outcome of a condition. -/
  | branch (value : Bool)
  /-- A name is looked up; `rebound` says whether the text before it in the body binds it. -/
  | read (name : String) (rebound : Bool)
  /-- A variable gets a value. -/
  | write (name : String)
  deriving DecidableEq, Repr

/-- Calls and branches are what control flow shows. -/
def Event.isControl : Event → Bool
  | .call _ | .branch _ => true
  | .read _ _ | .write _ => false

/-- Which traces a program has; the truth value says whether it left the function. -/
def Traces := List Event → Bool → Prop

namespace Traces

/-- Exactly these events, and the program goes on. -/
def one (events : List Event) : Traces := fun trace left => trace = events ∧ left = false

/-- Nothing, and the program leaves the function. -/
def leaves : Traces := fun trace left => trace = [] ∧ left = true

/-- One program after the other, unless the first leaves the function. -/
def seq (first second : Traces) : Traces := fun trace left =>
  (∃ before after, trace = before ++ after ∧ first before false ∧ second after left) ∨
    left = true ∧ first trace true

/-- One of two programs. -/
def either (first second : Traces) : Traces := fun trace left => first trace left ∨ second trace left

/-- A branch by a condition that can have either value. -/
def branch (whenTrue whenFalse : Traces) : Traces :=
  either (seq (one [.branch true]) whenTrue) (seq (one [.branch false]) whenFalse)

/-- A loop: its test, and a turn after each test that holds. -/
inductive Loop (test turn : Traces) : Traces where
  | ends : test before false → Loop test turn (before ++ [.branch false]) false
  | turns :
      test before false →
      turn during false →
      Loop test turn after left →
      Loop test turn (before ++ .branch true :: (during ++ after)) left
  | turnLeaves :
      test before false →
      turn during true →
      Loop test turn (before ++ .branch true :: during) true
  | testLeaves : test before true → Loop test turn before true

variable {first second third : Traces}

theorem ext (h : ∀ trace left, first trace left ↔ second trace left) : first = second := by
  funext trace left
  exact propext (h trace left)

theorem one_seq {events trace : List Event} {left : Bool} :
    seq (one events) second trace left ↔ ∃ after, trace = events ++ after ∧ second after left := by
  constructor
  · rintro (⟨_, after, rfl, ⟨rfl, _⟩, h⟩ | ⟨_, _, ⟨⟩⟩)
    exact ⟨after, rfl, h⟩
  · rintro ⟨after, rfl, h⟩
    exact .inl ⟨events, after, rfl, ⟨rfl, rfl⟩, h⟩

@[simp] theorem nil_seq : seq (one []) second = second := by
  refine ext fun trace left => ?_
  simp [one_seq]

@[simp] theorem seq_nil : seq first (one []) = first := by
  refine ext fun trace left => ?_
  cases left <;> simp [seq, one]

theorem one_append (events more : List Event) :
    seq (one events) (one more) = one (events ++ more) := by
  refine ext fun trace left => ?_
  rw [one_seq]
  constructor
  · rintro ⟨_, rfl, rfl, rfl⟩
    exact ⟨rfl, rfl⟩
  · rintro ⟨rfl, rfl⟩
    exact ⟨more, rfl, rfl, rfl⟩

/-- How programs are grouped does not matter. -/
theorem seq_assoc : seq (seq first second) third = seq first (seq second third) := by
  refine ext fun trace left => ?_
  constructor
  · rintro (⟨before, after, rfl, (⟨before', after', rfl, h₁, h₂⟩ | ⟨⟨⟩, _⟩), h₃⟩ |
      ⟨rfl, ⟨before, after, rfl, h₁, h₂⟩ | ⟨_, h₁⟩⟩)
    · exact .inl ⟨before', after' ++ after, List.append_assoc .., h₁, .inl ⟨after', after, rfl, h₂, h₃⟩⟩
    · exact .inl ⟨before, after, rfl, h₁, .inr ⟨rfl, h₂⟩⟩
    · exact .inr ⟨rfl, h₁⟩
  · rintro (⟨before, _, rfl, h₁, (⟨before', after', rfl, h₂, h₃⟩ | ⟨rfl, h₂⟩)⟩ | ⟨rfl, h₁⟩)
    · exact .inl ⟨before ++ before', after', (List.append_assoc ..).symm,
        .inl ⟨before, before', rfl, h₁, h₂⟩, h₃⟩
    · exact .inr ⟨rfl, .inl ⟨before, _, rfl, h₁, h₂⟩⟩
    · exact .inr ⟨rfl, .inr ⟨rfl, h₁⟩⟩

/-- What stands behind a branch can stand behind each of its sides. -/
theorem either_self : either first first = first := by
  refine ext fun trace left => ?_
  simp [either]

/-- Nothing comes behind a program that always leaves the function. -/
theorem seq_of_leaves (h : ∀ trace, ¬ first trace false) : seq first second = first := by
  refine ext fun trace left => ?_
  cases left with
  | false => simp [seq, h]
  | true => simp [seq, h]

end Traces

end LlvmBackend
