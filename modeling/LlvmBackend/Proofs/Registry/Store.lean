import LlvmBackend.Proofs.Registry.Names
import LlvmBackend.Registry.File
import Mathlib.Data.List.Induction

/-! # Registries in storage

A registry can be held as types in the order of their allocation, an index of their names and the
places of the core types, each of which is updated on its own. Main statement: however it is changed,
such a store holds the registry that is changed in the same way, and hands out its places
(`Store.Holds.define`, `Store.Holds.extendBy`).
-/

namespace LlvmBackend.Registry

/-- A registry in parts. The places of the core types are what the index said at the start. -/
structure Store where
  arena : List TypeDescriptor
  index : NameMap TypeId
  void : TypeId
  bool : TypeId
  int : TypeId
  float : TypeId
  string : TypeId

namespace Store

/-- Puts types at the end, each of them under its name. -/
def allocate (descriptors : List TypeDescriptor) : NameMap TypeId :=
  descriptors.zipIdx.foldl (fun index (descriptor, place) => index.insert descriptor.name ⟨place⟩) .empty

/-- The store of the builtin types, if the index has all core types. -/
def builtin? : Option Store := do
  let arena := builtin.descriptors
  let index := allocate arena
  return ⟨arena, index, ← index.get? "void", ← index.get? "bool", ← index.get? "int",
    ← index.get? "float", ← index.get? "str"⟩

/-- Defines a type and gives its place: the place of its name, or else a new one. -/
def define (store : Store) (descriptor : TypeDescriptor) : TypeId × Store :=
  match store.index.get? descriptor.name with
  | some id => (id, { store with arena := store.arena.set id.index descriptor })
  | none =>
    let id := ⟨store.arena.length⟩
    (id, { store with
      arena := store.arena ++ [descriptor], index := store.index.insert descriptor.name id })

/-- The first name that some type refers to and the index does not have. -/
def unknownReference (store : Store) : Option String :=
  (store.arena.flatMap references).find? fun name => (store.index.get? name).isNone

/-- Extends a store by the types that were found in a file. -/
def extendBy (store : Store) (found : Except Toml.Error (List TypeDescriptor)) :
    Store × Except RegistryError Nat :=
  match found with
  | .error error => (store, .error (.document error))
  | .ok descriptors =>
    let extended := descriptors.foldl (fun store descriptor => (store.define descriptor).2) store
    match extended.unknownReference with
    | some name => (extended, .error (.unknownType name))
    | none => (extended, .ok descriptors.length)

/-- The parts of a store make up a registry. -/
structure Holds (store : Store) (types : Registry) : Prop where
  arena : store.arena = types.descriptors
  index : ∀ name, store.index.get? name = types.lookup name
  void : store.void = Registry.void
  bool : store.bool = Registry.bool
  int : store.int = Registry.int
  float : store.float = Registry.float
  string : store.string = Registry.string

theorem allocate_append (descriptors : List TypeDescriptor) (descriptor : TypeDescriptor) :
    allocate (descriptors ++ [descriptor]) =
      (allocate descriptors).insert descriptor.name ⟨descriptors.length⟩ := by
  simp [allocate, List.zipIdx_append]

/-- The index has the places of types with different names. -/
theorem get?_allocate {descriptors : List TypeDescriptor}
    (nodup : (descriptors.map TypeDescriptor.name).Nodup) (name : String) :
    (allocate descriptors).get? name =
      (descriptors.findIdx? (·.name = name)).map TypeId.mk := by
  induction descriptors using List.reverseRecOn with
  | nil => rfl
  | append_singleton descriptors descriptor ih =>
      rw [List.map_append, List.nodup_append] at nodup
      obtain ⟨nodup, _, apart⟩ := nodup
      rw [allocate_append, List.findIdx?_append]
      by_cases same : descriptor.name = name
      · have absent : descriptors.findIdx? (·.name = name) = none :=
          List.findIdx?_eq_none_iff.mpr fun other mem => decide_eq_false fun named =>
            apart _ (List.mem_map_of_mem mem) _ (List.mem_map_of_mem (List.mem_singleton_self _))
              (named.trans same.symm)
        simp [absent, same]
      · rw [NameMap.get?_insert_of_ne _ _ (Ne.symm same), ih nodup]
        simp [same]

/-- The builtin types have a store, which holds their registry. -/
theorem exists_builtin : ∃ store, builtin? = some store ∧ store.Holds builtin := by
  have index (name : String) : (allocate builtin.descriptors).get? name = builtin.lookup name :=
    get?_allocate builtin.nodup name
  refine ⟨⟨builtin.descriptors, allocate builtin.descriptors, Registry.void, Registry.bool,
    Registry.int, Registry.float, Registry.string⟩, ?_, ⟨rfl, index, rfl, rfl, rfl, rfl, rfl⟩⟩
  simp only [builtin?, index]
  rfl

namespace Holds

variable {store : Store} {types : Registry}

/-- A definition keeps the parts together and gives the place where the type stands now. -/
theorem define (holds : store.Holds types) (descriptor : TypeDescriptor) :
    (store.define descriptor).2.Holds (types.define descriptor) ∧
      (types.define descriptor).lookup descriptor.name = some (store.define descriptor).1 := by
  have found := holds.index descriptor.name
  unfold Store.define
  cases known : types.lookup descriptor.name with
  | some id =>
      rw [known] at found
      have there : types.descriptors.findIdx? (·.name = descriptor.name) = some id.index := by
        simp only [lookup, Option.map_eq_map, Option.map_eq_some_iff] at known
        obtain ⟨_, there, rfl⟩ := known
        exact there
      simp only [found]
      refine ⟨{ holds with arena := ?_, index := fun name => ?_ }, lookup_define_of_some known⟩
      · rw [holds.arena]
        exact (place_eq_set there).symm
      · rw [holds.index]
        by_cases same : name = descriptor.name
        · rw [same, lookup_define_of_some known, known]
        · rw [lookup_define_of_ne same]
  | none =>
      rw [known] at found
      have size : store.arena.length = types.size := by rw [holds.arena, Registry.size]
      simp only [found, size]
      refine ⟨{ holds with arena := ?_, index := fun name => ?_ }, lookup_define_of_none known⟩
      · rw [holds.arena]
        exact (place_of_not_mem (lookup_eq_none_iff.mp known)).symm
      · by_cases same : name = descriptor.name
        · rw [same, NameMap.get?_insert_self, lookup_define_of_none known]
        · rw [NameMap.get?_insert_of_ne _ _ same, holds.index, lookup_define_of_ne same]

theorem defineAll (holds : store.Holds types) (descriptors : List TypeDescriptor) :
    (descriptors.foldl (fun store descriptor => (store.define descriptor).2) store).Holds
      (types.defineAll descriptors) := by
  induction descriptors generalizing store types with
  | nil => exact holds
  | cons descriptor rest ih => exact ih (holds.define descriptor).1

theorem unknownReference (holds : store.Holds types) :
    store.unknownReference = types.unknownReference := by
  simp only [Store.unknownReference, Registry.unknownReference, holds.arena, holds.index]

/-- An extension keeps the parts together, also when it fails, and comes to the same result. -/
theorem extendBy (holds : store.Holds types) (found : Except Toml.Error (List TypeDescriptor)) :
    (store.extendBy found).1.Holds (types.extendBy found).1 ∧
      (store.extendBy found).2 = (types.extendBy found).2 := by
  unfold Store.extendBy Registry.extendBy
  cases found with
  | error error => exact ⟨holds, rfl⟩
  | ok descriptors =>
      have extended := holds.defineAll descriptors
      simp only [extended.unknownReference, validate]
      cases (types.defineAll descriptors).unknownReference with
      | none => exact ⟨extended, rfl⟩
      | some name => exact ⟨extended, rfl⟩

end Holds

end Store

end LlvmBackend.Registry
