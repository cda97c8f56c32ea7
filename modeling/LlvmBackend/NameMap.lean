/-!
# Maps keyed by names

A finite map from names to values whose entries stand in the order of their names, each name once.
Main statements: after an insertion the new name has the new value and every other name keeps
its own (`get?_insert_self`, `get?_insert_of_ne`).
-/

namespace LlvmBackend

/-- Entries in increasing order of their names. -/
def NamesIncrease {α : Type} (entries : List (String × α)) : Prop :=
  entries.Pairwise (fun a b => a.1 < b.1)

/-- Puts a value under a name at its place in the order, over the value that stood there. -/
def insertEntry {α : Type} (name : String) (value : α) :
    List (String × α) → List (String × α)
  | [] => [(name, value)]
  | (other, old) :: rest =>
    if name < other then (name, value) :: (other, old) :: rest
    else if name = other then (name, value) :: rest
    else (other, old) :: insertEntry name value rest

/-- An entry after an insertion is the new one or an old one. -/
theorem mem_insertEntry {α : Type} {name : String} {value : α} {entries : List (String × α)}
    {entry : String × α} (h : entry ∈ insertEntry name value entries) :
    entry = (name, value) ∨ entry ∈ entries := by
  induction entries with
  | nil => simpa [insertEntry] using h
  | cons head rest ih =>
    obtain ⟨other, old⟩ := head
    simp only [insertEntry] at h
    split at h
    · simpa using h
    · split at h
      · rcases List.mem_cons.mp h with h | h
        · exact .inl h
        · exact .inr (List.mem_cons_of_mem _ h)
      · rcases List.mem_cons.mp h with h | h
        · exact .inr (h ▸ List.mem_cons_self)
        · exact (ih h).imp id (List.mem_cons_of_mem _)

theorem NamesIncrease.insertEntry {α : Type} {name : String} {value : α}
    {entries : List (String × α)} (h : NamesIncrease entries) :
    NamesIncrease (insertEntry name value entries) := by
  induction entries with
  | nil => simp [LlvmBackend.insertEntry, NamesIncrease]
  | cons head rest ih =>
    obtain ⟨other, old⟩ := head
    obtain ⟨below, increasing⟩ := List.pairwise_cons.mp h
    simp only [LlvmBackend.insertEntry]
    split
    · next lt =>
      refine List.pairwise_cons.mpr ⟨fun entry mem => ?_, h⟩
      rcases List.mem_cons.mp mem with rfl | mem
      · exact lt
      · exact String.lt_trans lt (below entry mem)
    · split
      · next eq => exact List.pairwise_cons.mpr ⟨fun entry mem => eq ▸ below entry mem, increasing⟩
      · next notLt ne =>
        refine List.pairwise_cons.mpr ⟨fun entry mem => ?_, ih increasing⟩
        rcases mem_insertEntry mem with rfl | mem
        · refine Decidable.byContradiction fun notGt => ne ?_
          exact String.le_antisymm (String.not_lt.mp notGt) (String.not_lt.mp notLt)
        · exact below entry mem

/-- A finite map from names, with its entries in the order of the names. -/
structure NameMap (α : Type) where
  entries : List (String × α)
  increasing : NamesIncrease entries

namespace NameMap

variable {α : Type}

/-- The map without entries. -/
def empty : NameMap α := ⟨[], List.Pairwise.nil⟩

/-- The value under a name. -/
def get? (map : NameMap α) (name : String) : Option α := map.entries.lookup name

/-- Puts a value under a name, over the value that stood there. -/
def insert (map : NameMap α) (name : String) (value : α) : NameMap α :=
  ⟨insertEntry name value map.entries, map.increasing.insertEntry⟩

/-- Inserts the entries of a list one after the other, so that the last of equal names stays. -/
def ofList (entries : List (String × α)) : NameMap α :=
  entries.foldl (fun map entry => map.insert entry.1 entry.2) empty

/-- The names in increasing order. -/
def names (map : NameMap α) : List String := map.entries.map Prod.fst

/-- The values in the order of their names. -/
def values (map : NameMap α) : List α := map.entries.map Prod.snd

def size (map : NameMap α) : Nat := map.entries.length

def isEmpty (map : NameMap α) : Bool := map.entries.isEmpty

@[simp] theorem get?_insert_self (map : NameMap α) (name : String) (value : α) :
    (map.insert name value).get? name = some value := by
  simp only [get?, insert]
  induction map.entries with
  | nil => simp [insertEntry]
  | cons head rest ih =>
    obtain ⟨other, old⟩ := head
    simp only [insertEntry]
    split
    · simp
    · split
      · simp
      · next ne =>
        have : (name == other) = false := by simpa using ne
        simpa [List.lookup_cons, this] using ih

theorem get?_insert_of_ne (map : NameMap α) {name asked : String} (value : α)
    (ne : asked ≠ name) : (map.insert name value).get? asked = map.get? asked := by
  simp only [get?, insert]
  have notHere : (asked == name) = false := by simpa using ne
  induction map.entries with
  | nil => simp [insertEntry, List.lookup_cons, notHere]
  | cons head rest ih =>
    obtain ⟨other, old⟩ := head
    simp only [insertEntry]
    split
    · simp [List.lookup_cons, notHere]
    · split
      · next eq =>
        have : (asked == other) = false := by simpa [← eq] using ne
        simp [List.lookup_cons, notHere, this]
      · simp only [List.lookup_cons]
        split
        · rfl
        · exact ih

end NameMap

end LlvmBackend
