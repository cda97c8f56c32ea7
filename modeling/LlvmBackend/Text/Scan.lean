/-!
# Scanning

Steps that take characters from the front of a text, and ways to put them together. Main statement:
repeating a step never gives back more than it was given (`length_many_le`).
-/

namespace LlvmBackend.Text

/-- A step that takes something from the front of a text, or fails. -/
abbrev Scan := StateT (List Char) Option

namespace Scan

variable {α : Type}

/-- Takes one character of a kind. -/
def one (kind : Char → Bool) : Scan Char
  | [] => none
  | c :: rest => if kind c then some (c, rest) else none

/-- Takes a given character. -/
def char (c : Char) : Scan Unit := discard (one (· = c))

/-- Takes a given text. -/
def word (text : String) : Scan Unit := fun input =>
  if text.toList.isPrefixOf input then some ((), input.drop text.length) else none

/-- Takes as many characters of a kind as there are. -/
def span (kind : Char → Bool) : Scan (List Char) := fun input =>
  some (input.takeWhile kind, input.dropWhile kind)

/-- Takes at least one character of a kind. -/
def span1 (kind : Char → Bool) : Scan (List Char) := do
  let first ← one kind
  return first :: (← span kind)

/-- Takes a number of characters of a kind. -/
def exactly (count : Nat) (kind : Char → Bool) : Scan (List Char) := fun input =>
  let taken := input.take count
  if taken.length = count ∧ taken.all kind then some (taken, input.drop count) else none

/-- The next character, which stays. -/
def peek : Scan (Option Char) := fun input => some (input.head?, input)

/-- Fails unless nothing is left. -/
def atEnd : Scan Unit := fun input => if input.isEmpty then some ((), input) else none

/-- Succeeds only where a step would, without taking anything. -/
def ahead (step : Scan α) : Scan Unit := fun input => (step input).map fun _ => ((), input)

/-- Takes what a step takes, or nothing where it fails. -/
def maybe (step : Scan α) : Scan (Option α) := fun input =>
  match step input with
  | some (value, rest) => some (some value, rest)
  | none => some (none, input)

/-- Repeats a step as long as it succeeds and takes something. -/
def manyFrom (step : Scan α) (input : List Char) : List α × List Char :=
  match step input with
  | none => ([], input)
  | some (value, rest) =>
    if rest.length < input.length then
      let (values, last) := manyFrom step rest
      (value :: values, last)
    else ([], input)
termination_by input.length

/-- Repeats a step as long as it succeeds and takes something. -/
def many (step : Scan α) : Scan (List α) := fun input => some (manyFrom step input)

/-- Repeats a step with a separator between each two. -/
def separated (step : Scan α) (separator : Scan Unit) : Scan (List α) := do
  let first ← step
  return first :: (← many (separator *> step))

theorem length_many_le (step : Scan α) (input : List Char) :
    (manyFrom step input).2.length ≤ input.length := by
  fun_induction manyFrom step input with
  | case1 => simp
  | case2 input value rest found shorter values last again ih =>
    simp only [again] at ih
    simp only
    omega
  | case3 => simp

end Scan

end LlvmBackend.Text
