import LlvmBackend.Proofs.Registry.Store
import Mathlib.Data.Finset.Card
import Mathlib.Data.Finset.Dedup

/-! # Histories of registries

Whatever is defined in a registry, and whichever of its extensions fail, it is an index of the types
by their names. Main statement: `Registry.after_indexes`.
-/

namespace LlvmBackend.Registry

/-! ## Changes -/

/-- A way to change a registry: a type is defined, or whatever was found in a file. -/
inductive Change where
  | define (descriptor : TypeDescriptor)
  | extend (found : Except Toml.Error (List TypeDescriptor))

/-- The types that a change defines. A file that cannot be read has none, and a reference that leads
    nowhere does not undo a definition. -/
def Change.defines : Change → List TypeDescriptor
  | .define descriptor => [descriptor]
  | .extend (.ok descriptors) => descriptors
  | .extend (.error _) => []

def change (types : Registry) : Change → Registry
  | .define descriptor => types.define descriptor
  | .extend found => (types.extendBy found).1

def Store.change (store : Store) : Change → Store
  | .define descriptor => (store.define descriptor).2
  | .extend found => (store.extendBy found).1

theorem change_eq_defineAll (types : Registry) (change : Change) :
    types.change change = types.defineAll change.defines := by
  cases change with
  | define descriptor => rfl
  | extend found => cases found <;> rfl

theorem Store.Holds.change {store : Store} {types : Registry} (holds : store.Holds types)
    (change : Change) : (store.change change).Holds (types.change change) := by
  cases change with
  | define descriptor => exact (holds.define descriptor).1
  | extend found => exact (holds.extendBy found).1

/-! ## Histories -/

/-- The registry after changes to the builtin types. -/
def after (changes : List Change) : Registry := changes.foldl change builtin

/-- All types that were defined in their order, the builtin types first. -/
def definitions (changes : List Change) : List TypeDescriptor :=
  builtin.descriptors ++ changes.flatMap Change.defines

/-- The store after changes to the store of the builtin types. -/
def Store.after? (changes : List Change) : Option Store :=
  Store.builtin?.map fun store => changes.foldl Store.change store

theorem after_eq_defineAll (changes : List Change) :
    after changes = builtin.defineAll (changes.flatMap Change.defines) := by
  unfold after
  generalize builtin = types
  induction changes generalizing types with
  | nil => rfl
  | cons change rest ih =>
      rw [List.foldl_cons, List.flatMap_cons, defineAll_append, ih, change_eq_defineAll]

theorem after_append (earlier later : List Change) :
    after (earlier ++ later) = later.foldl change (after earlier) :=
  List.foldl_append

theorem names_after (changes : List Change) :
    (after changes).names = ((definitions changes).map TypeDescriptor.name).eraseDups := by
  rw [after_eq_defineAll, names_defineAll, definitions, List.map_append]
  rfl

/-- Names stay where they are. -/
theorem names_prefix_defineAll (types : Registry) (descriptors : List TypeDescriptor) :
    types.names <+: (types.defineAll descriptors).names := by
  rw [names_defineAll, List.eraseDups_append, eraseDups_of_nodup types.nodup_names]
  exact List.prefix_append _ _

theorem names_prefix_after (earlier later : List Change) :
    (after earlier).names <+: (after (earlier ++ later)).names := by
  rw [after_eq_defineAll (earlier ++ later), List.flatMap_append, defineAll_append,
    ← after_eq_defineAll]
  exact names_prefix_defineAll _ _

theorem find?_after (changes : List Change) (name : String) :
    (after changes).find? name = (definitions changes).reverse.find? (·.name = name) := by
  rw [after_eq_defineAll, find?_defineAll, definitions, List.reverse_append, List.find?_append,
    find?_reverse]

/-- The store of a history holds its registry. -/
theorem exists_after (changes : List Change) :
    ∃ store, Store.after? changes = some store ∧ store.Holds (after changes) := by
  obtain ⟨store, made, holds⟩ := Store.exists_builtin
  simp only [Store.after?, made, Option.map_some, Option.some.injEq, exists_eq_left', after]
  clear made
  generalize builtin = types at holds
  induction changes generalizing store types with
  | nil => exact holds
  | cons change rest ih => exact ih _ _ (holds.change change)

/-! ## The index -/

/-- A registry is an index of types that were defined one after the other. -/
structure Indexes (types : Registry) (definitions : List TypeDescriptor) : Prop where
  /-- A name stands for a place if and only if the type there has the name. -/
  names : ∀ name id, types.lookup name = some id ↔ id ∈ types.ids ∧ types.name id = name
  /-- In the place of a name is the last type that was defined under it. -/
  latest : ∀ name, (types.lookup name).map types.describe =
    definitions.reverse.find? (·.name = name)
  /-- The places are in the order of the first definitions. -/
  order : types.ids.map types.name = (definitions.map TypeDescriptor.name).eraseDups
  /-- There are as many places as names. -/
  size : types.size = (definitions.map TypeDescriptor.name).toFinset.card
  /-- The places of the core types are those of their names. -/
  core : coreNames.map types.lookup = [void, bool, int, float, string].map some

/-- The places of a registry are places of another one, and have the same names there. -/
def Keeps (earlier later : Registry) : Prop :=
  ∀ id ∈ earlier.ids, id ∈ later.ids ∧ later.name id = earlier.name id

/-- A store is the one after changes. -/
structure Stores (store : Store) (changes : List Change) : Prop where
  /-- What is held in parts is the registry after the changes. -/
  holds : store.Holds (after changes)
  /-- A definition gives the place of its name. -/
  returns : ∀ descriptor,
    (after (changes ++ [.define descriptor])).lookup descriptor.name =
      some (store.define descriptor).1
  /-- An extension succeeds or fails as it does on the registry. -/
  outcome : ∀ found, (store.extendBy found).2 = ((after changes).extendBy found).2

theorem after_index (changes : List Change) : Indexes (after changes) (definitions changes) where
  names _ _ := lookup_eq_some_iff
  latest name := by rw [map_describe_lookup, find?_after]
  order := by rw [map_name_ids, names_after]
  size := by
    rw [← length_names, ← List.toFinset_card_of_nodup (nodup_names _), names_after]
    congr 1
    ext name
    simp
  core := map_lookup_core _

theorem keeps_after (earlier later : List Change) :
    Keeps (after earlier) (after (earlier ++ later)) := by
  intro id there
  have before : id.index < (after earlier).size := mem_ids.mp there
  obtain ⟨new, names⟩ := names_prefix_after earlier later
  have lt : id.index < (after (earlier ++ later)).size := by
    rw [← length_names, ← names, List.length_append, length_names]
    exact Nat.lt_add_right _ before
  refine ⟨mem_ids.mpr lt, Option.some.inj ?_⟩
  rw [← getElem?_names lt, ← names, List.getElem?_append_left (by rwa [length_names]),
    getElem?_names before]

/-- After any changes to the builtin types, a registry indexes all types that were defined and keeps
    its places through further changes, and so does a store that holds it in parts. -/
theorem after_indexes (earlier later : List Change) :
    Indexes (after earlier) (definitions earlier) ∧
      Keeps (after earlier) (after (earlier ++ later)) ∧
        ∃ store, Store.after? earlier = some store ∧ Stores store earlier := by
  obtain ⟨store, made, holds⟩ := exists_after earlier
  refine ⟨after_index earlier, keeps_after earlier later, store, made, holds, fun descriptor => ?_,
    fun found => (holds.extendBy found).2⟩
  rw [after_append]
  exact (holds.define descriptor).2

end LlvmBackend.Registry
