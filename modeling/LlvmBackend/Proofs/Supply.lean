import LlvmBackend.Supply
import Mathlib.Data.List.Nodup
import Mathlib.Data.List.Perm.Subperm

/-! # Free names

The name of storage that a supply gives is never taken.
-/

namespace LlvmBackend.Supply

theorem repr_injective : Function.Injective Nat.repr := by
  intro m n eq
  have eq := congrArg (fun text => Nat.ofDigitChars 10 text.toList 0) eq
  simpa using eq

/-- The numbers of labels tell them apart. -/
theorem label_injective : Function.Injective fun n : Nat => s!"L{n}" := by
  intro m n eq
  have eq := congrArg String.toList eq
  simp only [toString, String.toList_append, List.append_cancel_left_eq] at eq
  exact repr_injective (String.toList_injective eq)

/-- The numbers behind a name tell the names apart. -/
theorem numbered_injective (base : String) : Function.Injective (numbered base) := by
  intro m n eq
  have eq := congrArg String.toList eq
  simp only [numbered, toString, String.toList_append, List.append_cancel_left_eq] at eq
  exact repr_injective (String.toList_injective eq)

/-- A name is none of those with a number behind it. -/
theorem numbered_ne (base : String) (n : Nat) : numbered base n ≠ base := by
  intro eq
  have eq := congrArg (fun text => text.toList.length) eq
  simp only [numbered, toString, String.toList_append, List.length_append] at eq
  have : ".".toList.length = 1 := rfl
  omega

/-- Not all numbers up to that of the taken names make taken names. -/
theorem exists_free {supply : Supply} {base : String} (taken : base ∈ supply.used) :
    ∃ n ∈ List.range' 1 supply.used.length, numbered base n ∉ supply.used := by
  by_contra h
  have all : ∀ n ∈ List.range' 1 supply.used.length, numbered base n ∈ supply.used := by
    simpa using h
  have nodup : (base :: (List.range' 1 supply.used.length).map (numbered base)).Nodup := by
    refine List.nodup_cons.mpr ⟨?_, List.Nodup.map (numbered_injective base) (List.nodup_range' 1)⟩
    simp only [List.mem_map, not_exists, not_and]
    exact fun n _ => numbered_ne base n
  have sub : base :: (List.range' 1 supply.used.length).map (numbered base) ⊆ supply.used := by
    refine List.cons_subset.mpr ⟨taken, fun name mem => ?_⟩
    obtain ⟨n, inside, rfl⟩ := List.mem_map.mp mem
    exact all n inside
  have le := (List.Nodup.subperm nodup sub).length_le
  rw [List.length_cons, List.length_map, List.length_range'] at le
  omega

/-- A free name is the name that was asked for, without or with a number. -/
theorem freeName_eq (supply : Supply) (base : String) :
    supply.freeName base = base ∨ ∃ n, supply.freeName base = numbered base n := by
  unfold freeName
  split
  · exact .inr ⟨_, rfl⟩
  · exact .inl rfl

/-- A name that is taken becomes the name with the least number that makes it free. -/
theorem freeName_of_mem {supply : Supply} {base : String} (taken : base ∈ supply.used) :
    ∃ n, 1 ≤ n ∧ n ≤ supply.used.length ∧ supply.freeName base = numbered base n ∧
      numbered base n ∉ supply.used ∧ ∀ m, 1 ≤ m → m < n → numbered base m ∈ supply.used := by
  cases found : (List.range' 1 supply.used.length).find? fun n =>
      numbered base n ∉ supply.used with
  | none =>
      obtain ⟨n, inside, free⟩ := exists_free taken
      have := List.find?_eq_none.mp found n inside
      simp [free] at this
  | some n =>
      obtain ⟨free, inside, below⟩ := List.find?_range'_eq_some.mp found
      obtain ⟨pos, lt⟩ := List.mem_range'_1.mp inside
      refine ⟨n, pos, by omega, ?_, by simpa using free, by simpa using below⟩
      simp only [freeName, if_pos taken, found, Option.getD_some]

theorem freeName_not_mem (supply : Supply) (base : String) : supply.freeName base ∉ supply.used := by
  by_cases taken : base ∈ supply.used
  · obtain ⟨n, _, _, eq, free, _⟩ := freeName_of_mem taken
    rwa [eq]
  · rwa [freeName, if_neg taken]

end LlvmBackend.Supply
