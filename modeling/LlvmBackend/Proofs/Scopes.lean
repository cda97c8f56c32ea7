import LlvmBackend.Scopes
import Mathlib.Data.List.Perm.Basic

/-! # Looking names up

What names stand for once a name is bound or a frame is opened.
-/

namespace LlvmBackend

namespace NameMap

variable {α : Type}

theorem get?_insert (map : NameMap α) (name asked : String) (value : α) :
    (map.insert name value).get? asked = if asked = name then some value else map.get? asked := by
  split
  · next eq => rw [eq, get?_insert_self]
  · next ne => rw [get?_insert_of_ne map value ne]

@[simp] theorem get?_empty (name : String) : (empty : NameMap α).get? name = none := rfl

theorem get?_eq_some {map : NameMap α} {name : String} {value : α} :
    map.get? name = some value ↔ (name, value) ∈ map.entries := by
  have increasing := map.increasing
  simp only [get?]
  revert increasing
  induction map.entries with
  | nil => simp
  | cons entry rest ih =>
      intro increasing
      obtain ⟨below, others⟩ := List.pairwise_cons.mp increasing
      obtain ⟨first, old⟩ := entry
      rw [List.lookup_cons, List.mem_cons, Prod.mk.injEq]
      by_cases eq : name = first
      · subst eq
        have later : (name, value) ∉ rest := fun mem => String.lt_irrefl _ (below (name, value) mem)
        simp [later, eq_comm]
      · have notHere : (name == first) = false := by simpa using eq
        simp [notHere, eq, ih others]

theorem nodup_names (map : NameMap α) : (map.entries.map Prod.fst).Nodup :=
  List.pairwise_map.mpr (map.increasing.imp String.ne_of_lt)

theorem nodup_entries (map : NameMap α) : map.entries.Nodup :=
  List.Pairwise.of_map Prod.fst (fun _ _ ne eq => ne (congrArg Prod.fst eq)) map.nodup_names

/-- A map is known by the values under all names. -/
theorem ext {map other : NameMap α} (same : ∀ name, map.get? name = other.get? name) :
    map = other := by
  have perm : map.entries.Perm other.entries :=
    (List.perm_ext_iff_of_nodup map.nodup_entries other.nodup_entries).mpr fun entry => by
      rw [← get?_eq_some, ← get?_eq_some, same]
  have eq := perm.eq_of_pairwise (fun a b _ _ lt gt => absurd gt (String.lt_asymm lt))
    map.increasing other.increasing
  cases map
  cases other
  cases eq
  rfl

theorem insert_comm (map : NameMap α) {first second : String} (ne : first ≠ second)
    (value value' : α) : (map.insert first value).insert second value' =
      (map.insert second value').insert first value := by
  refine ext fun name => ?_
  simp only [get?_insert]
  by_cases eq : name = first
  · subst eq
    simp [ne]
  · simp [eq]

end NameMap

namespace Scopes

variable {α : Type} {scopes : Scopes α}

theorem lookupFrom_eq (name : String) (id : Nat) :
    scopes.lookupFrom name id = scopes.frames[id]?.bind fun frame =>
      (frame.names.get? name).or (frame.parent.bind (scopes.lookupFrom name)) := by
  rw [lookupFrom]
  split
  · next none => simp [none]
  · next frame there =>
      simp only [there, Option.bind_some]
      split
      · next found => rw [found, Option.some_or]
      · next absent =>
          rw [absent, Option.none_or]
          split
          · next top => rw [top, Option.bind_none]
          · next inside => rw [inside, Option.bind_some]

/-- A look-up from a frame reads this frame and older ones only. -/
theorem lookupFrom_congr {other : Scopes α} {id : Nat} (name : String)
    (same : ∀ older ≤ id, other.frames[older]? = scopes.frames[older]?) :
    other.lookupFrom name id = scopes.lookupFrom name id := by
  induction id using Nat.strongRecOn with
  | ind id ih =>
      rw [lookupFrom_eq, lookupFrom_eq, same id (Nat.le_refl id)]
      cases there : scopes.frames[id]? with
      | none => rfl
      | some frame =>
          rw [Option.bind_some, Option.bind_some]
          cases inside : frame.parent with
          | none => rfl
          | some parent =>
              have lt := scopes.older id frame there parent inside
              rw [Option.bind_some, Option.bind_some, ih parent lt fun older le =>
                same older (Nat.le_trans le (Nat.le_of_lt lt))]

/-- A name stands for what the frame in use says, else for what the frames around it say. -/
theorem lookup_eq (name : String) : scopes.lookup name =
    (scopes.lookupLocal name).or (scopes.frame.parent.bind (scopes.lookupFrom name)) := by
  rw [lookup, lookupFrom_eq, frame_eq, Option.bind_some, lookupLocal]

theorem lookup_of_lookupLocal {name : String} {value : α}
    (found : scopes.lookupLocal name = some value) : scopes.lookup name = some value := by
  rw [lookup_eq, found, Option.some_or]

theorem frame_define (name : String) (value : α) : (scopes.define name value).frame =
    { scopes.frame with names := scopes.frame.names.insert name value } := by
  have here := (scopes.define name value).frame_eq
  have there : (scopes.define name value).frames[scopes.current]? =
      some { scopes.frame with names := scopes.frame.names.insert name value } := by
    simp [define, frame_eq]
  exact Option.some.inj (here.symm.trans there)

theorem lookupLocal_define (name asked : String) (value : α) :
    (scopes.define name value).lookupLocal asked =
      if asked = name then some value else scopes.lookupLocal asked := by
  rw [lookupLocal, frame_define, NameMap.get?_insert, lookupLocal]

theorem lookup_define (name asked : String) (value : α) :
    (scopes.define name value).lookup asked =
      if asked = name then some value else scopes.lookup asked := by
  have older : ∀ parent ∈ scopes.frame.parent,
      (scopes.define name value).lookupFrom asked parent = scopes.lookupFrom asked parent := by
    intro parent inside
    have lt := scopes.older _ _ scopes.frame_eq parent inside
    refine lookupFrom_congr asked fun id le => ?_
    have : scopes.current ≠ id := Nat.ne_of_gt (Nat.lt_of_le_of_lt le lt)
    simp [define, this]
  rw [lookup_eq, lookupLocal_define, frame_define, lookup_eq]
  split
  · rfl
  · cases inside : scopes.frame.parent with
    | none => rfl
    | some parent => rw [Option.bind_some, Option.bind_some, older parent inside]

theorem frame_push : scopes.push.frame = ⟨some scopes.current, .empty⟩ := by
  have here := scopes.push.frame_eq
  have there : scopes.push.frames[scopes.push.current]? = some ⟨some scopes.current, .empty⟩ := by
    simp [push]
  exact Option.some.inj (here.symm.trans there)

theorem lookupLocal_push (name : String) : scopes.push.lookupLocal name = none := by
  rw [lookupLocal, frame_push, NameMap.get?_empty]

/-- A frame that was just opened binds nothing. -/
theorem lookup_push (name : String) : scopes.push.lookup name = scopes.lookup name := by
  rw [lookup_eq, lookupLocal_push, frame_push, Option.none_or, Option.bind_some]
  refine lookupFrom_congr name fun id le => ?_
  have : id < scopes.frames.length := Nat.lt_of_le_of_lt le scopes.current_lt
  simp [push, List.getElem?_append_left this]

@[simp] theorem lookup_empty (name : String) : (empty : Scopes α).lookup name = none := by
  rw [lookup_eq]
  rfl

end Scopes

end LlvmBackend
