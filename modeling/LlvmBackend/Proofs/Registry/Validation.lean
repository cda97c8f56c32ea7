import LlvmBackend.Proofs.Scopes
import LlvmBackend.Proofs.Typing.Expr
import LlvmBackend.Registry.File

/-! # Validated registries

A registry is validated when all types that its types refer to are in it. Main statements: what the
check of references says (`validate_eq_ok`, `exists_validate_error`), and that in a validated registry
only a type without elements has none (`Closed.element`).
-/

namespace LlvmBackend.Registry

/-- The types that types refer to are there. -/
def Closed (types : Registry) : Prop :=
  ∀ descriptor ∈ types.descriptors, ∀ name ∈ references descriptor, (types.lookup name).isSome

/-- The element of some type, or the result or the argument of a method of some type, is not there. -/
def Dangling (types : Registry) : Prop :=
  ∃ descriptor ∈ types.descriptors,
    (∃ name, descriptor.element = some name ∧ types.lookup name = none) ∨
      ∃ entry ∈ descriptor.methods.values, types.lookup entry.returns = none ∨
        ∃ name, entry.argument = some name ∧ types.lookup name = none

variable {types : Registry}

/-! ## The check of references -/

theorem mem_references {descriptor : TypeDescriptor} {name : String} :
    name ∈ references descriptor ↔ descriptor.element = some name ∨
      ∃ entry ∈ descriptor.methods.values, entry.returns = name ∨ entry.argument = some name := by
  simp [references, eq_comm]

theorem validate_eq_ok : types.validate = .ok () ↔ types.Closed := by
  have none_iff : types.unknownReference = none ↔ types.Closed := by
    simp only [unknownReference, List.find?_eq_none, List.forall_mem_flatMap, Closed]
    refine forall₂_congr fun _ _ => forall₂_congr fun name _ => ?_
    cases types.lookup name <;> simp
  rw [← none_iff, validate]
  cases types.unknownReference <;> simp

/-- A registry is closed unless some type refers to one that is not there. -/
theorem not_closed_iff : ¬ types.Closed ↔ types.Dangling := by
  simp only [Closed, Dangling, mem_references, not_forall, exists_prop, Option.not_isSome_iff_eq_none]
  refine exists_congr fun descriptor => and_congr_right fun _ => ?_
  constructor
  · rintro ⟨name, element | ⟨entry, mem, rfl | argument⟩, absent⟩
    · exact .inl ⟨name, element, absent⟩
    · exact .inr ⟨entry, mem, .inl absent⟩
    · exact .inr ⟨entry, mem, .inr ⟨name, argument, absent⟩⟩
  · rintro (⟨name, element, absent⟩ | ⟨entry, mem, absent | ⟨name, argument, absent⟩⟩)
    · exact ⟨name, .inl element, absent⟩
    · exact ⟨entry.returns, .inr ⟨entry, mem, .inl rfl⟩, absent⟩
    · exact ⟨name, .inr ⟨entry, mem, .inr argument⟩, absent⟩

theorem exists_validate_error : (∃ error, types.validate = .error error) ↔ types.Dangling := by
  rw [← not_closed_iff, ← validate_eq_ok]
  cases types.validate <;> simp

/-! ## What is found in a closed registry -/

namespace Closed

/-- The types that a method names are there. -/
theorem method (closed : types.Closed) {id : TypeId} {name : String} {entry : MethodEntry}
    (found : types.method id name = some entry) {asked : String}
    (named : entry.returns = asked ∨ entry.argument = some asked) : (types.lookup asked).isSome := by
  rcases types.describe_mem id with there | unknown
  · refine closed _ there asked (mem_references.mpr (.inr ⟨entry, ?_, named⟩))
    exact List.mem_map_of_mem (NameMap.get?_eq_some.mp found)
  · rw [Registry.method, unknown] at found
    cases found

/-- Only a type that names no elements has none. -/
theorem element (closed : types.Closed) {id : TypeId} (absent : types.element id = none) :
    (types.describe id).element = none := by
  rcases types.describe_mem id with there | unknown
  · refine Option.eq_none_iff_forall_not_mem.mpr fun name named => ?_
    have known := closed _ there name (mem_references.mpr (.inl named))
    rw [Registry.element, Option.mem_def.mp named, Option.bind_some] at absent
    simp [absent] at known
  · rw [unknown]

end Closed

end LlvmBackend.Registry
