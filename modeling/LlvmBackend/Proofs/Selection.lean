import LlvmBackend.Lowering.Expr
import LlvmBackend.Proofs.Returning

/-! # Selected leaves

The value of a connective of two operands of one type is that of one of them, and so is the value of
a choice by a condition. What is observed of an expression therefore tells a leaf of it, which is
neither, that its value comes from.
-/

namespace LlvmBackend

namespace Traces

variable {first second : Traces}

/-- None of the traces of a program that goes on goes on where another one ends. -/
def Prompt (traces : Traces) : Prop :=
  ∀ trace other rest rest', traces trace false → traces other false →
    trace ++ rest = other ++ rest' → trace = other

theorem prompt_one {events : List Event} : (one events).Prompt := by
  rintro _ _ _ _ ⟨rfl, _⟩ ⟨rfl, _⟩ _
  rfl

theorem Prompt.seq (h₁ : first.Prompt) (h₂ : second.Prompt) : (first.seq second).Prompt := by
  rintro _ _ rest rest' (⟨before, after, rfl, goesOn, ends⟩ | ⟨⟨⟩, _⟩)
    (⟨before', after', rfl, goesOn', ends'⟩ | ⟨⟨⟩, _⟩) eq
  simp only [List.append_assoc] at eq
  obtain rfl := h₁ _ _ _ _ goesOn goesOn' eq
  rw [h₂ _ _ _ _ ends ends' (List.append_cancel_left eq)]

theorem Prompt.branch (h₁ : first.Prompt) (h₂ : second.Prompt) : (first.branch second).Prompt := by
  rintro trace other rest rest' (goesOn | goesOn) (goesOn' | goesOn') eq
  · exact prompt_one.seq h₁ _ _ _ _ goesOn goesOn' eq
  · obtain ⟨_, rfl, _⟩ := one_seq.mp goesOn
    obtain ⟨_, rfl, _⟩ := one_seq.mp goesOn'
    cases eq
  · obtain ⟨_, rfl, _⟩ := one_seq.mp goesOn
    obtain ⟨_, rfl, _⟩ := one_seq.mp goesOn'
    cases eq
  · exact prompt_one.seq h₂ _ _ _ _ goesOn goesOn' eq

end Traces

open Lowering (Connective)

/-- The expression that a connective makes of its operands. -/
def Lowering.Connective.expr : Connective → Expr → Expr → Expr
  | .and => .and
  | .or => .or

namespace Reference

open Traces

variable (types : Registry) (signatures : SignatureTable) (typing : Typing)

/-- The value of an expression was made by a call for it, be it of a function or of an operator. -/
def isResult : Expr → Bool
  | .call _ _ | .binary _ _ _ => true
  | _ => false

/-- The value of an expression is that of a part of it. -/
def Joins : Expr → Prop
  | .and left right | .or left right =>
    typeOf types signatures typing right = typeOf types signatures typing left
  | .ternary _ _ _ => True
  | _ => False

/-- An expression with a trace has the value of a leaf of it. The trace begins with what comes before
    the leaf and goes on with that of the leaf. -/
inductive Selects : Expr → List Event → Expr → List Event → List Event → Prop where
  | leaf :
      ¬ Joins types signatures typing e →
      exprTraces types signatures typing e own false →
      Selects e own e [] own
  /-- Control moves on to the right operand. -/
  | right {connective : Connective} :
      typeOf types signatures typing right = typeOf types signatures typing left →
      testTraces types signatures typing left tested false →
      Selects right trace leaf before own →
      Selects (connective.expr left right) (tested ++ .branch (connective = .and) :: trace) leaf
        (tested ++ .branch (connective = .and) :: before) own
  /-- The left operand decides. -/
  | left {connective : Connective} :
      typeOf types signatures typing right = typeOf types signatures typing left →
      Selects left trace leaf before own →
      Selects (connective.expr left right)
        (trace ++ (coercion types signatures (typeOf types signatures typing left) ++
          [.branch (connective ≠ .and)])) leaf before own
  | choice {taken : Bool} :
      testTraces types signatures typing test tested false →
      Selects (if taken then onTrue else onFalse) trace leaf before own →
      Selects (.ternary test onTrue onFalse) (tested ++ .branch taken :: trace) leaf
        (tested ++ .branch taken :: before) own

variable {types : Registry} {signatures : SignatureTable} {typing : Typing}

mutual

theorem exprTraces_prompt (typing : Typing) (e : Expr) :
    (exprTraces types signatures typing e).Prompt := by
  cases e with
  | bool | int | float | string | name => exact prompt_one
  | binary _ left right =>
      exact (exprTraces_prompt typing left).seq ((exprTraces_prompt typing right).seq prompt_one)
  | not operand => exact (exprTraces_prompt typing operand).seq prompt_one
  | and left right =>
      exact ((exprTraces_prompt typing left).seq prompt_one).seq
        (((exprTraces_prompt typing right).seq prompt_one).branch prompt_one)
  | or left right =>
      exact ((exprTraces_prompt typing left).seq prompt_one).seq
        (prompt_one.branch ((exprTraces_prompt typing right).seq prompt_one))
  | ternary test onTrue onFalse =>
      exact ((exprTraces_prompt typing test).seq prompt_one).seq
        ((exprTraces_prompt typing onTrue).branch (exprTraces_prompt typing onFalse))
  | index container position =>
      exact (exprTraces_prompt typing container).seq (exprTraces_prompt typing position)
  | call _ args => exact (exprsTraces_prompt typing args).seq prompt_one

theorem exprsTraces_prompt (typing : Typing) (es : List Expr) :
    (exprsTraces types signatures typing es).Prompt := by
  cases es with
  | nil => exact prompt_one
  | cons first rest => exact (exprTraces_prompt typing first).seq (exprsTraces_prompt typing rest)

end

theorem testTraces_prompt (typing : Typing) (test : Expr) :
    (testTraces types signatures typing test).Prompt :=
  (exprTraces_prompt typing test).seq prompt_one

theorem joins_expr (connective : Connective) (left right : Expr) :
    Joins types signatures typing (connective.expr left right) ↔
      typeOf types signatures typing right = typeOf types signatures typing left := by
  cases connective <;> rfl

/-- A connective of operands of one type, by its traces. -/
theorem exprTraces_joined (connective : Connective) {left right : Expr}
    (same : typeOf types signatures typing right = typeOf types signatures typing left) :
    exprTraces types signatures typing (connective.expr left right) =
      (testTraces types signatures typing left).seq
        (if connective = .and then .branch (exprTraces types signatures typing right) (.one [])
          else .branch (.one []) (exprTraces types signatures typing right)) := by
  cases connective <;>
    simp [Connective.expr, exprTraces, testTraces, if_pos same]

namespace Selects

variable {e leaf leaf' : Expr} {trace before own before' own' : List Event}

/-- What an expression is selected by is a trace of it. -/
theorem traced (selects : Selects types signatures typing e trace leaf before own) :
    exprTraces types signatures typing e trace false := by
  induction selects with
  | leaf _ traced => exact traced
  | @right _ _ _ _ _ _ _ connective same tests _ ih =>
      rw [exprTraces_joined connective same]
      refine .inl ⟨_, _, rfl, tests, ?_⟩
      cases connective with
      | and => exact .inl (one_seq.mpr ⟨_, rfl, ih⟩)
      | or => exact .inr (one_seq.mpr ⟨_, rfl, ih⟩)
  | @left _ _ _ _ _ _ connective same _ ih =>
      rw [exprTraces_joined connective same, ← List.append_assoc]
      refine .inl ⟨_, _, rfl, .inl ⟨_, _, rfl, ih, rfl, rfl⟩, ?_⟩
      cases connective with
      | and => exact .inr (one_seq.mpr ⟨[], rfl, rfl, rfl⟩)
      | or => exact .inl (one_seq.mpr ⟨[], rfl, rfl, rfl⟩)
  | @choice _ _ _ _ _ _ _ _ taken tests _ ih =>
      refine .inl ⟨_, _, rfl, tests, ?_⟩
      cases taken with
      | true => exact .inl (one_seq.mpr ⟨_, rfl, ih⟩)
      | false => exact .inr (one_seq.mpr ⟨_, rfl, ih⟩)

/-- How a connective of operands of one type selects a leaf. -/
theorem joined {connective : Connective} {left right : Expr}
    (selects : Selects types signatures typing (connective.expr left right) trace leaf before own)
    (same : typeOf types signatures typing right = typeOf types signatures typing left) :
    (∃ tested rest inner, testTraces types signatures typing left tested false ∧
      Selects types signatures typing right rest leaf inner own ∧
      trace = tested ++ .branch (connective = .and) :: rest ∧
      before = tested ++ .branch (connective = .and) :: inner) ∨
    ∃ rest, Selects types signatures typing left rest leaf before own ∧
      trace = rest ++ (coercion types signatures (typeOf types signatures typing left) ++
        [.branch (connective ≠ .and)]) := by
  generalize eq : connective.expr left right = e at selects
  cases selects with
  | leaf other => exact absurd (eq ▸ (joins_expr connective left right).mpr same) other
  | @right _ _ _ _ _ _ _ connective' _ tests selects =>
      cases connective <;> cases connective' <;> cases eq <;>
        exact .inl ⟨_, _, _, tests, selects, rfl, rfl⟩
  | @left _ _ _ _ _ _ connective' _ selects =>
      cases connective <;> cases connective' <;> cases eq <;> exact .inr ⟨_, selects, rfl⟩
  | choice => cases connective <;> cases eq

/-- How a choice by a condition selects a leaf. -/
theorem ternary {test onTrue onFalse : Expr}
    (selects : Selects types signatures typing (.ternary test onTrue onFalse) trace leaf before own) :
    ∃ (taken : Bool) (tested rest inner : List Event),
      testTraces types signatures typing test tested false ∧
      Selects types signatures typing (if taken then onTrue else onFalse) rest leaf inner own ∧
      trace = tested ++ .branch taken :: rest ∧ before = tested ++ .branch taken :: inner := by
  generalize eq : Expr.ternary test onTrue onFalse = e at selects
  cases selects with
  | leaf other => subst eq; exact absurd trivial other
  | @right _ _ _ _ _ _ _ connective | @left _ _ _ _ _ _ connective => cases connective <;> cases eq
  | choice tests selects => cases eq; exact ⟨_, _, _, _, tests, selects, rfl, rfl⟩

/-- A trace selects one leaf. -/
theorem unique (selects : Selects types signatures typing e trace leaf before own)
    (selects' : Selects types signatures typing e trace leaf' before' own') :
    leaf = leaf' ∧ before = before' ∧ own = own' := by
  induction selects generalizing leaf' before' own' with
  | leaf other =>
      cases selects' with
      | leaf => exact ⟨rfl, rfl, rfl⟩
      | right same | left same => exact absurd ((joins_expr _ _ _).mpr same) other
      | choice => exact absurd trivial other
  | @right _ left _ _ _ _ _ connective same tests selects ih =>
      rcases selects'.joined same with ⟨tested, rest, inner, tests', selects', eq, rfl⟩ |
        ⟨rest, selects', eq⟩
      · obtain rfl := testTraces_prompt typing left _ _ _ _ tests tests' eq
        cases List.append_cancel_left eq
        obtain ⟨rfl, rfl, rfl⟩ := ih selects'
        exact ⟨rfl, rfl, rfl⟩
      · rw [← List.append_assoc] at eq
        obtain rfl := testTraces_prompt typing left _ _ _ _ tests
          (.inl ⟨_, _, rfl, selects'.traced, rfl, rfl⟩) eq
        cases connective <;> simp at eq
  | @left _ left _ _ _ _ connective same selects ih =>
      rcases selects'.joined same with ⟨tested, rest, inner, tests', selects', eq, rfl⟩ |
        ⟨rest, selects', eq⟩
      · rw [← List.append_assoc] at eq
        obtain rfl := testTraces_prompt typing left _ _ _ _
          (.inl ⟨_, _, rfl, selects.traced, rfl, rfl⟩) tests' eq
        cases connective <;> simp at eq
      · cases List.append_cancel_right eq
        exact ih selects'
  | @choice test _ _ _ _ _ _ _ taken tests selects ih =>
      obtain ⟨taken', tested', _, _, tests', selects', eq, rfl⟩ := selects'.ternary
      obtain rfl := testTraces_prompt typing test _ _ _ _ tests tests' eq
      cases List.append_cancel_left eq
      obtain ⟨rfl, rfl, rfl⟩ := ih selects'
      exact ⟨rfl, rfl, rfl⟩

end Selects

end Reference

end LlvmBackend
