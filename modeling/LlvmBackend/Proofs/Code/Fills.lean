import LlvmBackend.Proofs.Code.Numbers
import LlvmBackend.Proofs.Code.Parts
import Mathlib.Data.List.Pairwise

/-! # Storage that code fills

Which storage code gives values to, and which storage an address may stand for: itself, or what any
of its sources stands for if it is a merge.
-/

namespace LlvmBackend

open Ir

/-- The storage that an instruction gives a value to, or that it allocates for the result of a call
    or for a copy. -/
def Instr.fills : Instr → List Operand
  | .alloca dest _ => [dest]
  | i => i.gives?.toList

def Part.fills : Part → List Operand
  | .instr _ i => i.fills
  | _ => []

def Part.number? : Part → Option Nat
  | .instr _ i => i.number?
  | _ => none

/-- A loop over an iterator: the address that its head asks for the next element, and its code. -/
structure Drive where
  iterator : Operand
  loop : Code

namespace Code

variable {first second : Code}

def fills (code : Code) : List Operand := code.parts.flatMap Part.fills

@[simp] theorem fills_skip : fills .skip = [] := rfl

@[simp] theorem fills_seq : (seq first second).fills = first.fills ++ second.fills := by
  simp [fills, parts]

@[simp] theorem fills_instr (role : Role) (i : Instr) : (instr role i).fills = i.fills := by
  simp [fills, parts, Part.fills]

@[simp] theorem fills_read (name : String) (rebound : Bool) (value : Value) :
    (read name rebound value).fills = [] := rfl

@[simp] theorem fills_slot (name : String) (type : IrType) : (slot name type).fills = [] := rfl

@[simp] theorem fills_jump (source target : BlockId) : (jump source target).fills = [] := rfl

@[simp] theorem fills_ret (value : Option TypedOperand) : (ret value).fills = [] := rfl

@[simp] theorem fills_fork (role : Role) (flag : Operand) (onTrue onFalse : BlockId) :
    (fork role flag onTrue onFalse first second).fills = first.fills ++ second.fills := by
  simp [fills, parts, Part.fills]

@[simp] theorem fills_loop (body fin : BlockId) (flag : Operand) :
    (loop body fin first flag second).fills = first.fills ++ second.fills := by
  simp [fills, parts, Part.fills]

@[simp] theorem fills_leading (code : Code) (ended : Bool) (source fin : BlockId) :
    (code.leading ended source fin).fills = code.fills := by
  cases ended <;> simp [leading]

/-- The numbers that code defines are those of its parts. -/
theorem temps_eq (code : Code) : code.temps = code.parts.filterMap Part.number? := by
  induction code with
  | skip | read | slot | jump | ret => rfl
  | instr _ i => cases number : i.number? <;> simp [temps, parts, Part.number?, number]
  | seq _ _ ih₁ ih₂ => rw [temps, parts, List.filterMap_append, ih₁, ih₂]
  | fork _ _ _ _ _ _ ih₁ ih₂ =>
      rw [temps, parts, List.filterMap_cons_none rfl, List.filterMap_append, ih₁, ih₂]
  | loop _ _ _ _ _ ih₁ ih₂ =>
      rw [temps, parts, List.filterMap_append, List.filterMap_cons_none rfl, ih₁, ih₂]

section Sublist

variable {parts : List Part} {role : Role} {flag : Operand} {a b : BlockId}

theorem sublist_seq (sub : (seq first second).parts.Sublist parts) :
    first.parts.Sublist parts ∧ second.parts.Sublist parts :=
  ⟨(List.sublist_append_left _ _).trans sub, (List.sublist_append_right _ _).trans sub⟩

theorem sublist_fork (sub : (fork role flag a b first second).parts.Sublist parts) :
    first.parts.Sublist parts ∧ second.parts.Sublist parts :=
  sublist_seq ((List.sublist_cons_self _ _).trans sub)

theorem sublist_loop (sub : (loop a b first flag second).parts.Sublist parts) :
    first.parts.Sublist parts ∧ second.parts.Sublist parts :=
  ⟨(List.sublist_append_left _ _).trans sub,
    ((List.sublist_cons_self _ _).trans (List.sublist_append_right _ _)).trans sub⟩

theorem sublist_sides {taken : Bool}
    (sub : (sides taken flag a b first second).parts.Sublist parts) :
    first.parts.Sublist parts ∧ second.parts.Sublist parts := by
  cases taken with
  | true => exact sublist_fork sub
  | false => exact (sublist_fork sub).symm

theorem sublist_leading {code : Code} {ended : Bool}
    (sub : (code.leading ended a b).parts.Sublist parts) : code.parts.Sublist parts := by
  cases ended with
  | true => exact sub
  | false => exact (sublist_seq sub).1

theorem nodup_of_sublist {code : Code} (sub : first.parts.Sublist code.parts)
    (nodup : code.temps.Nodup) : first.temps.Nodup := by
  rw [temps_eq] at nodup ⊢
  exact (sub.filterMap _).nodup nodup

end Sublist

/-- The address that the head of a loop asks for the next element. -/
def asked? : Code → Option Operand
  | .instr _ (.call (some _) _ _ (receiver :: _)) => some receiver.operand
  | _ => none

/-- The loops of code over iterators, in their order. -/
def drives : Code → List Drive
  | .seq first second => first.drives ++ second.drives
  | .fork _ _ _ _ whenTrue whenFalse => whenTrue.drives ++ whenFalse.drives
  | .loop body fin test flag turn =>
    test.drives ++ test.asked?.toList.map (⟨·, .loop body fin test flag turn⟩) ++ turn.drives
  | .skip | .instr _ _ | .read _ _ _ | .slot _ _ | .jump _ _ | .ret _ => []

@[simp] theorem drives_leading (code : Code) (ended : Bool) (source fin : BlockId) :
    (code.leading ended source fin).drives = code.drives := by
  cases ended <;> simp [leading, drives]

end Code

/-! ## What addresses stand for -/

/-- An address may stand for some storage when control stands behind its definition. -/
inductive Denotes (parts : List Part) : Operand → Operand → Prop where
  | self : Denotes parts storage storage
  | merge :
      .instr role (.phi address type incoming) ∈ parts →
      source ∈ incoming →
      Denotes parts source.1 storage →
      Denotes parts address storage

/-- A loop fills storage that its iterator may be in. -/
def Drive.Replaced (parts : List Part) (drive : Drive) : Prop :=
  ∃ storage ∈ drive.loop.fills, Denotes parts drive.iterator storage

/-- Each number is defined by one part, and merges have numbers. -/
structure Singled (parts : List Part) : Prop where
  nodup : (parts.filterMap Part.number?).Nodup
  merges : ∀ role address type incoming, .instr role (.phi address type incoming) ∈ parts →
    ∃ n, address = .temp n

namespace Singled

variable {parts : List Part} (singled : Singled parts)
include singled

theorem unique {p q : Part} {n : Nat} (mem : p ∈ parts) (mem' : q ∈ parts)
    (number : p.number? = some n) (number' : q.number? = some n) : p = q := by
  by_contra ne
  have apart := List.pairwise_filterMap.mp singled.nodup
  have : Std.Symm fun p q : Part => ∀ x, p.number? = some x → ∀ y, q.number? = some y → x ≠ y :=
    ⟨fun _ _ apart x eq y eq' => (apart y eq' x eq).symm⟩
  exact apart.forall mem mem' ne n number n number' rfl

theorem of_sublist {less : List Part} (sub : less.Sublist parts) : Singled less where
  nodup := (sub.filterMap _).nodup singled.nodup
  merges := fun role address type incoming mem =>
    singled.merges role address type incoming (sub.subset mem)

theorem nodup_temps {code : Code} (sub : code.parts.Sublist parts) : code.temps.Nodup := by
  rw [code.temps_eq]
  exact (singled.of_sublist sub).nodup

/-- What is no merge stands for itself. -/
theorem denotes_of_part {part : Part} {n : Nat} (mem : part ∈ parts) (number : part.number? = some n)
    (other : ∀ role address type incoming, part ≠ .instr role (.phi address type incoming))
    {storage : Operand} (denotes : Denotes parts (.temp n) storage) : storage = .temp n := by
  cases denotes with
  | self => rfl
  | merge mem' _ _ =>
      exact absurd (singled.unique mem mem' number rfl) (other _ _ _ _)

theorem denotes_of_constant {address storage : Operand} (constant : address.temp? = none)
    (denotes : Denotes parts address storage) : storage = address := by
  cases denotes with
  | self => rfl
  | merge mem _ _ =>
      obtain ⟨n, rfl⟩ := singled.merges _ _ _ _ mem
      cases constant

/-- A merge stands for itself or for what one of its sources stands for. -/
theorem denotes_phi_iff {role : Role} {n : Nat} {type : IrType}
    {incoming : List (Operand × BlockId)} (mem : .instr role (.phi (.temp n) type incoming) ∈ parts)
    {storage : Operand} : Denotes parts (.temp n) storage ↔
      storage = .temp n ∨ ∃ source ∈ incoming, Denotes parts source.1 storage := by
  constructor
  · intro denotes
    cases denotes with
    | self => exact .inl rfl
    | merge mem' source rest =>
        cases singled.unique mem mem' rfl rfl
        exact .inr ⟨_, source, rest⟩
  · rintro (rfl | ⟨source, there, denotes⟩)
    · exact .self
    · exact .merge mem there denotes

end Singled

/-- Built code defines each number once. -/
theorem Build.singled {exit : Option BlockId} {s t : Site} {code : Code}
    (build : Build exit s code t) : Singled code.parts where
  nodup := code.temps_eq ▸ build.numbered.nodup
  merges := fun _ _ _ _ mem => build.dest_eq_temp mem rfl

end LlvmBackend
