import LlvmBackend.Registry
import Mathlib.Data.List.Nodup

/-! # Names of types

What a definition does to the names in a registry and to the types that they stand for. Main
statements: a name stands for the place whose type has it (`lookup_eq_some_iff`), after definitions
a name has the last type that was defined under it (`find?_defineAll`), and names stand in the order
of their first definitions (`names_defineAll`).
-/

namespace LlvmBackend.Registry

/-- The names of the types in their order. -/
def names (types : Registry) : List String := types.descriptors.map TypeDescriptor.name

/-- The type of a name. -/
def find? (types : Registry) (name : String) : Option TypeDescriptor :=
  types.descriptors.find? (·.name = name)

/-! ## Places -/

theorem length_names (types : Registry) : types.names.length = types.size :=
  List.length_map _

theorem nodup_names (types : Registry) : types.names.Nodup := types.nodup

theorem mem_ids {types : Registry} {id : TypeId} : id ∈ types.ids ↔ id.index < types.size := by
  simp only [ids, List.mem_map, List.mem_range]
  exact ⟨by rintro ⟨_, lt, rfl⟩; exact lt, fun lt => ⟨id.index, lt, rfl⟩⟩

theorem getElem?_names {types : Registry} {id : TypeId} (lt : id.index < types.size) :
    types.names[id.index]? = some (types.name id) := by
  have lt : id.index < types.descriptors.length := lt
  simp [name, describe, names, lt]

/-- The names of all places in their order are all names. -/
theorem map_name_ids (types : Registry) : types.ids.map types.name = types.names := by
  refine List.ext_getElem? fun index => ?_
  by_cases lt : index < types.size
  · rw [@getElem?_names types ⟨index⟩ lt]
    simp [ids, lt]
  · have beyond := Nat.le_of_not_lt lt
    rw [List.getElem?_eq_none (by simpa [ids] using beyond),
      List.getElem?_eq_none (types.length_names ▸ beyond)]

theorem lookup_eq_findIdx? (types : Registry) (name : String) :
    types.lookup name = (types.names.findIdx? (· = name)).map TypeId.mk := by
  rw [names, List.findIdx?_map]
  rfl

/-- A name stands for a place if and only if the type there has the name. -/
theorem lookup_eq_some_iff {types : Registry} {name : String} {id : TypeId} :
    types.lookup name = some id ↔ id ∈ types.ids ∧ types.name id = name := by
  have found : types.lookup name = some id ↔
      types.names.findIdx? (· = name) = some id.index := by
    simp only [lookup_eq_findIdx?, Option.map_eq_some_iff]
    exact ⟨by rintro ⟨_, found, rfl⟩; exact found, fun found => ⟨_, found, rfl⟩⟩
  rw [found, List.findIdx?_eq_some_iff_getElem, mem_ids]
  constructor
  · rintro ⟨lt, named, _⟩
    have lt' : id.index < types.size := types.length_names ▸ lt
    have there := getElem?_names lt'
    rw [List.getElem?_eq_getElem lt] at there
    exact ⟨lt', (Option.some.inj there).symm.trans (of_decide_eq_true named)⟩
  · rintro ⟨lt', named⟩
    have lt : id.index < types.names.length := types.length_names ▸ lt'
    have there := getElem?_names lt'
    rw [List.getElem?_eq_getElem lt, named] at there
    have there := Option.some.inj there
    refine ⟨lt, decide_eq_true there, fun earlier before other => ?_⟩
    have same := there.trans (of_decide_eq_true other).symm
    exact Nat.ne_of_gt before (types.nodup_names.getElem_inj_iff.mp same)

theorem lookup_eq_none_iff {types : Registry} {name : String} :
    types.lookup name = none ↔ name ∉ types.names := by
  rw [lookup_eq_findIdx?, Option.map_eq_none_iff, List.findIdx?_eq_none_iff]
  refine ⟨fun none mem => by simpa using none name mem, fun absent other mem => ?_⟩
  exact decide_eq_false fun same => absent (same ▸ mem)

theorem isSome_lookup {types : Registry} {name : String} :
    (types.lookup name).isSome ↔ name ∈ types.names := by
  rw [Option.isSome_iff_ne_none, Ne, lookup_eq_none_iff, not_not]

/-- What stands in the place of a name is the type of the name. -/
theorem map_describe_lookup (types : Registry) (name : String) :
    (types.lookup name).map types.describe = types.find? name := by
  simp only [lookup, find?, Option.map_eq_map, Option.map_map,
    List.find?_eq_map_findFinIdx?_getElem, List.findIdx?_eq_map_findFinIdx?_val]
  refine congrArg (Option.map · _) (funext fun index => ?_)
  simp [describe]

/-- Since no two types have the same name, it does not matter from which end a type is found. -/
theorem find?_reverse (types : Registry) (name : String) :
    types.descriptors.reverse.find? (·.name = name) = types.find? name := by
  have found (descriptors : List TypeDescriptor) (perm : descriptors.Perm types.descriptors)
      (descriptor : TypeDescriptor) : descriptors.find? (·.name = name) = some descriptor ↔
        descriptor ∈ types.descriptors ∧ descriptor.name = name := by
    constructor
    · intro found
      exact ⟨perm.mem_iff.mp (List.mem_of_find?_eq_some found), by simpa using List.find?_some found⟩
    · rintro ⟨mem, named⟩
      have exists_named : (descriptors.find? (·.name = name)).isSome :=
        List.find?_isSome.mpr ⟨descriptor, perm.mem_iff.mpr mem, decide_eq_true named⟩
      obtain ⟨first, found⟩ := Option.isSome_iff_exists.mp exists_named
      have same : first.name = name := by simpa using List.find?_some found
      have mem' := perm.mem_iff.mp (List.mem_of_find?_eq_some found)
      rw [found, List.inj_on_of_nodup_map types.nodup mem' mem (same.trans named.symm)]
  exact Option.ext fun descriptor =>
    (found _ (List.reverse_perm _) descriptor).trans (found _ (.refl _) descriptor).symm

/-- The core types stand where their names do. -/
theorem map_lookup_core (types : Registry) :
    coreNames.map types.lookup = [void, bool, int, float, string].map some := by
  obtain ⟨rest, eq⟩ := types.core
  have names : types.names = coreNames ++ rest := eq.symm
  simp [lookup_eq_findIdx?, names, coreNames, List.findIdx?_cons, void, bool, int, float, string]

/-! ## Definitions -/

theorem names_define (types : Registry) (descriptor : TypeDescriptor) :
    (types.define descriptor).names =
      if descriptor.name ∈ types.names then types.names else types.names ++ [descriptor.name] :=
  names_place descriptor types.descriptors

/-- A definition leaves all names in their places. -/
theorem lookup_define_of_ne {types : Registry} {descriptor : TypeDescriptor} {name : String}
    (other : name ≠ descriptor.name) : (types.define descriptor).lookup name = types.lookup name := by
  rw [lookup_eq_findIdx?, lookup_eq_findIdx?, names_define]
  split
  · rfl
  · simp [List.findIdx?_append, other.symm]

/-- A name that is new has its place at the end. -/
theorem lookup_define_of_none {types : Registry} {descriptor : TypeDescriptor}
    (new : types.lookup descriptor.name = none) :
    (types.define descriptor).lookup descriptor.name = some ⟨types.size⟩ := by
  have absent := lookup_eq_none_iff.mp new
  have none : types.names.findIdx? (· = descriptor.name) = none := by
    simpa [lookup_eq_findIdx?] using new
  rw [lookup_eq_findIdx?, names_define, if_neg absent, List.findIdx?_append, none]
  simp [length_names]

/-- A name that is known keeps its place. -/
theorem lookup_define_of_some {types : Registry} {descriptor : TypeDescriptor} {id : TypeId}
    (known : types.lookup descriptor.name = some id) :
    (types.define descriptor).lookup descriptor.name = some id := by
  have present := isSome_lookup.mp (known ▸ Option.isSome_some)
  rw [lookup_eq_findIdx?, names_define, if_pos present, ← lookup_eq_findIdx?, known]

/-- What had the name before is what the definition replaces. -/
theorem place_eq_set {descriptor : TypeDescriptor} {descriptors : List TypeDescriptor} {index : Nat}
    (there : descriptors.findIdx? (·.name = descriptor.name) = some index) :
    place descriptor descriptors = descriptors.set index descriptor := by
  induction descriptors generalizing index with
  | nil => cases there
  | cons other rest ih =>
      rw [List.findIdx?_cons] at there
      by_cases replaces : other.name = descriptor.name
      · obtain rfl : 0 = index := by simpa [replaces] using there
        simp [place, replaces]
      · obtain ⟨before, found, rfl⟩ : ∃ before,
            rest.findIdx? (·.name = descriptor.name) = some before ∧ before + 1 = index := by
          simpa [replaces] using there
        simp [place, replaces, ih found]

theorem find?_place (descriptor : TypeDescriptor) (descriptors : List TypeDescriptor)
    (name : String) :
    (place descriptor descriptors).find? (·.name = name) =
      if descriptor.name = name then some descriptor else descriptors.find? (·.name = name) := by
  induction descriptors with
  | nil => by_cases same : descriptor.name = name <;> simp [place, same]
  | cons other rest ih =>
      by_cases replaces : other.name = descriptor.name
      · by_cases same : descriptor.name = name <;> simp [place, replaces, same]
      · rw [place, if_neg replaces, List.find?_cons, List.find?_cons, ih]
        by_cases here : other.name = name
        · have differ : descriptor.name ≠ name := fun same => replaces (here.trans same.symm)
          simp [here, differ]
        · simp [here]

theorem find?_define (types : Registry) (descriptor : TypeDescriptor) (name : String) :
    (types.define descriptor).find? name =
      if descriptor.name = name then some descriptor else types.find? name :=
  find?_place descriptor types.descriptors name

theorem defineAll_append (types : Registry) (first second : List TypeDescriptor) :
    types.defineAll (first ++ second) = (types.defineAll first).defineAll second :=
  List.foldl_append

/-- After definitions, a name has the last type that was defined under it. -/
theorem find?_defineAll (types : Registry) (descriptors : List TypeDescriptor) (name : String) :
    (types.defineAll descriptors).find? name =
      (descriptors.reverse.find? (·.name = name)).or (types.find? name) := by
  induction descriptors generalizing types with
  | nil => rfl
  | cons descriptor rest ih =>
      have unfolded : types.defineAll (descriptor :: rest) = (types.define descriptor).defineAll rest :=
        rfl
      rw [unfolded, ih, find?_define, List.reverse_cons, List.find?_append, Option.or_assoc]
      by_cases same : descriptor.name = name <;> simp [same]

theorem eraseDups_of_nodup {names : List String} (nodup : names.Nodup) : names.eraseDups = names := by
  induction names with
  | nil => rfl
  | cons name rest ih =>
      obtain ⟨absent, nodup⟩ := List.nodup_cons.mp nodup
      have others : rest.filter (fun other => !other == name) = rest :=
        List.filter_eq_self.mpr fun other mem => by
          simpa using fun same : other = name => absent (same ▸ mem)
      rw [List.eraseDups_cons, others, ih nodup]

/-- Definitions add the names that are new, in the order of their first definitions. -/
theorem names_defineAll (types : Registry) (descriptors : List TypeDescriptor) :
    (types.defineAll descriptors).names =
      (types.names ++ descriptors.map TypeDescriptor.name).eraseDups := by
  induction descriptors generalizing types with
  | nil => simp [defineAll, eraseDups_of_nodup types.nodup_names]
  | cons descriptor rest ih =>
      have unfolded : types.defineAll (descriptor :: rest) = (types.define descriptor).defineAll rest :=
        rfl
      rw [unfolded, ih, names_define]
      split
      · next known =>
        rw [List.eraseDups_append, List.eraseDups_append, List.map_cons, List.cons_removeAll]
        simp [known]
      · simp

end LlvmBackend.Registry
