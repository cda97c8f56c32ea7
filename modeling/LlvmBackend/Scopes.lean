import LlvmBackend.NameMap

/-!
# Nested scopes

Frames of names, each inside another one but the first. Frames are never given up: a frame goes by
the number of frames that were there before it, and leaving a frame only makes the one around it
the current one. Every frame is younger than the one around it, so the way outwards ends.
-/

namespace LlvmBackend

/-- A frame: the frame around it and the names that are bound in it. -/
structure Frame (α : Type) where
  parent : Option Nat
  names : NameMap α

/-- Every frame is younger than the one around it. -/
def ParentsOlder {α : Type} (frames : List (Frame α)) : Prop :=
  ∀ (id : Nat) (frame : Frame α), frames[id]? = some frame → ∀ parent ∈ frame.parent, parent < id

/-- All frames there were, and the one in use. -/
structure Scopes (α : Type) where
  frames : List (Frame α)
  current : Nat
  current_lt : current < frames.length
  older : ParentsOlder frames

namespace Scopes

variable {α : Type}

/-- One frame without names. -/
def empty : Scopes α where
  frames := [⟨none, .empty⟩]
  current := 0
  current_lt := by simp
  older := fun id frame there parent inside => by
    cases id with
    | zero => simp at there; simp [← there] at inside
    | succ n => simp at there

/-- The frame in use. -/
def frame (scopes : Scopes α) : Frame α := scopes.frames.get ⟨scopes.current, scopes.current_lt⟩

theorem frame_eq (scopes : Scopes α) : scopes.frames[scopes.current]? = some scopes.frame := by
  simp [frame, scopes.current_lt]

/-- Opens a frame inside the one in use. -/
def push (scopes : Scopes α) : Scopes α where
  frames := scopes.frames ++ [⟨some scopes.current, .empty⟩]
  current := scopes.frames.length
  current_lt := by simp
  older := fun id frame there parent inside => by
    rw [List.getElem?_append] at there
    split at there
    · exact scopes.older id frame there parent inside
    · obtain ⟨_, rfl⟩ := List.getElem?_eq_some_iff.mp there
      have := scopes.current_lt
      simp at inside
      omega

/-- Goes back to the frame around the one in use; the outermost frame stays. -/
def pop (scopes : Scopes α) : Scopes α :=
  match h : scopes.frame.parent with
  | none => scopes
  | some parent =>
    have younger := scopes.older _ _ scopes.frame_eq parent (by simp [h])
    { scopes with current := parent, current_lt := Nat.lt_trans younger scopes.current_lt }

/-- Binds a name in the frame in use, over what it stood for there. -/
def define (scopes : Scopes α) (name : String) (value : α) : Scopes α where
  frames := scopes.frames.modify scopes.current fun frame =>
    { frame with names := frame.names.insert name value }
  current := scopes.current
  current_lt := by simpa using scopes.current_lt
  older := fun id frame there parent inside => by
    rw [List.getElem?_modify] at there
    obtain ⟨old, found, rfl⟩ := Option.map_eq_some_iff.mp there
    refine scopes.older id old found parent ?_
    split at inside <;> simpa using inside

/-- What a name stands for in the frame in use. -/
def lookupLocal (scopes : Scopes α) (name : String) : Option α := scopes.frame.names.get? name

/-- What a name stands for in a frame or the nearest one around it that binds it. -/
def lookupFrom (scopes : Scopes α) (name : String) (id : Nat) : Option α :=
  match there : scopes.frames[id]? with
  | none => none
  | some frame =>
    match frame.names.get? name with
    | some value => some value
    | none =>
      match inside : frame.parent with
      | none => none
      | some parent =>
        have : parent < id := scopes.older id frame there parent (by simp [inside])
        lookupFrom scopes name parent
termination_by id

/-- What a name stands for. -/
def lookup (scopes : Scopes α) (name : String) : Option α :=
  scopes.lookupFrom name scopes.current

end Scopes

end LlvmBackend
