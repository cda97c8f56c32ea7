import LlvmBackend.Proofs.Reference

/-! # Statements that always return

Expressions never leave the function. Statements leave it on all of their ways if one of them
returns, or if all arms of a chain do up to one without a condition.
-/

namespace LlvmBackend

namespace Traces

variable {first second : Traces}

/-- A program that does not leave the function. -/
def Stays (traces : Traces) : Prop := ∀ trace, ¬ traces trace true

/-- A program behind which nothing comes. -/
def Departs (traces : Traces) : Prop := ∀ trace, ¬ traces trace false

theorem stays_one {events : List Event} : (one events).Stays := by
  rintro _ ⟨_, ⟨⟩⟩

theorem Stays.seq (h₁ : first.Stays) (h₂ : second.Stays) : (first.seq second).Stays := by
  rintro _ (⟨_, after, _, _, left⟩ | ⟨_, left⟩)
  · exact h₂ after left
  · exact h₁ _ left

theorem Stays.branch (h₁ : first.Stays) (h₂ : second.Stays) : (first.branch second).Stays := by
  rintro trace (left | left)
  · exact stays_one.seq h₁ trace left
  · exact stays_one.seq h₂ trace left

theorem departs_leaves : leaves.Departs := by
  rintro _ ⟨_, ⟨⟩⟩

theorem Departs.seq_left (h : first.Departs) : (first.seq second).Departs := by
  rintro _ (⟨before, _, _, goesOn, _⟩ | ⟨⟨⟩, _⟩)
  exact h before goesOn

theorem Departs.seq_right (h : second.Departs) : (first.seq second).Departs := by
  rintro _ (⟨_, after, _, _, goesOn⟩ | ⟨⟨⟩, _⟩)
  exact h after goesOn

theorem Departs.branch (h₁ : first.Departs) (h₂ : second.Departs) :
    (first.branch second).Departs := by
  rintro trace (goesOn | goesOn)
  · exact h₁.seq_right trace goesOn
  · exact h₂.seq_right trace goesOn

end Traces

namespace Reference

open Traces

/-! ## Statements that return on all of their ways -/

mutual

/-- A statement that always returns. -/
def stmtReturns : Stmt → Bool
  | .ret _ => true
  | .ifChain arms => armsReturn arms
  | .assign _ _ | .whileLoop _ _ | .forLoop _ _ _ | .effect _ => false

/-- One of the statements always returns. -/
def suiteReturns : List Stmt → Bool
  | [] => false
  | first :: rest => stmtReturns first || suiteReturns rest

/-- There is an arm without a condition, and it always returns like all arms before it. -/
def armsReturn : List Arm → Bool
  | [] => false
  | .mk none body :: _ => suiteReturns body
  | .mk (some _) body :: rest => suiteReturns body && armsReturn rest

end

variable {types : Registry} {signatures : SignatureTable}

mutual

/-- Expressions do not leave the function. -/
theorem exprTraces_stays (typing : Typing) (e : Expr) :
    (exprTraces types signatures typing e).Stays := by
  cases e with
  | bool | int | float | string | name => exact stays_one
  | binary _ left right =>
      exact (exprTraces_stays typing left).seq ((exprTraces_stays typing right).seq stays_one)
  | not operand => exact (exprTraces_stays typing operand).seq stays_one
  | and left right =>
      exact ((exprTraces_stays typing left).seq stays_one).seq
        (((exprTraces_stays typing right).seq stays_one).branch stays_one)
  | or left right =>
      exact ((exprTraces_stays typing left).seq stays_one).seq
        (stays_one.branch ((exprTraces_stays typing right).seq stays_one))
  | ternary test onTrue onFalse =>
      exact ((exprTraces_stays typing test).seq stays_one).seq
        ((exprTraces_stays typing onTrue).branch (exprTraces_stays typing onFalse))
  | index container position =>
      exact (exprTraces_stays typing container).seq (exprTraces_stays typing position)
  | call _ args => exact (exprsTraces_stays typing args).seq stays_one

theorem exprsTraces_stays (typing : Typing) (es : List Expr) :
    (exprsTraces types signatures typing es).Stays := by
  cases es with
  | nil => exact stays_one
  | cons first rest => exact (exprTraces_stays typing first).seq (exprsTraces_stays typing rest)

end

mutual

theorem stmtTraces_departs (typing : Typing) (statement : Stmt) (returns : stmtReturns statement) :
    (stmtTraces types signatures typing statement).Departs := by
  cases statement with
  | ret value =>
      cases value with
      | none => exact departs_leaves
      | some => exact departs_leaves.seq_right
  | ifChain arms => exact armsTraces_departs typing arms returns
  | assign | whileLoop | forLoop | effect => cases returns

/-- Statements of which one always returns leave the function on all of their ways. -/
theorem suiteTraces_departs (typing : Typing) (statements : List Stmt)
    (returns : suiteReturns statements) :
    (suiteTraces types signatures typing statements).Departs := by
  cases statements with
  | nil => cases returns
  | cons first rest =>
      rcases Bool.or_eq_true_iff.mp returns with returns | returns
      · exact (stmtTraces_departs typing first returns).seq_left
      · exact (suiteTraces_departs _ rest returns).seq_right

theorem armsTraces_departs (typing : Typing) (arms : List Arm) (returns : armsReturn arms) :
    (armsTraces types signatures typing arms).Departs := by
  match arms with
  | [] => cases returns
  | .mk none body :: _ => exact suiteTraces_departs typing body returns
  | .mk (some _) body :: rest =>
      obtain ⟨body_returns, rest_return⟩ := Bool.and_eq_true_iff.mp returns
      exact ((suiteTraces_departs typing body body_returns).branch
        (armsTraces_departs _ rest rest_return)).seq_right

end

end Reference

end LlvmBackend
