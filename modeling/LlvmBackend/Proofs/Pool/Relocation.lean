import LlvmBackend.Proofs.Pool.Renumbering
import LlvmBackend.Proofs.Renaming

/-! # Pools behind other pools

The constants of a piece of code are the same whether or not there were other literals before it,
but for the numbers in their symbols and for the truth values, which are not added twice.
-/

namespace LlvmBackend.Pool

open Ir

/-! ## Later pools -/

/-- A pool after some more literals. -/
inductive Later (types : Registry) (pool : Pool) : Pool → Prop where
  | refl : Later types pool pool
  | bool {later : Pool} (value : Bool) (h : Later types pool later) :
    Later types pool (later.bool types value).2
  | int {later : Pool} (value : Int64) (h : Later types pool later) :
    Later types pool (later.int types value).2
  | float {later : Pool} (value : Binary64) (h : Later types pool later) :
    Later types pool (later.float types value).2
  | string {later : Pool} (value : String) (h : Later types pool later) :
    Later types pool (later.string types value).2

/-- The two truth values. -/
def truths (types : Registry) : List Global := [boolGlobal types false, boolGlobal types true]

/-- Whether a constant is one of a number or a text. -/
def isNumbered (global : Global) : Bool := (form? global.symbol).isSome

/-- The constants of the numbers and texts. -/
def numbered (pool : Pool) : List Global := pool.globals.filter isNumbered

/-- Besides numbers and texts a pool has the truth values, once they were met, and nothing else. -/
def Truthful (types : Registry) (pool : Pool) : Prop :=
  pool.globals.filter (fun global => !isNumbered global) =
    if pool.hasBools then truths types else []

theorem isNumbered_of_form {global : Global} (form : Form) {n : Nat}
    (eq : global.symbol = form.symbol n) : isNumbered global = true := by
  rw [isNumbered, eq, form?_symbol, Option.isSome_some]

section Numbered

variable (types : Registry) (n : Nat)

@[simp] theorem isNumbered_int (value : Int64) : isNumbered (intGlobal types n value) = true :=
  isNumbered_of_form .int rfl

@[simp] theorem isNumbered_float (value : Binary64) :
    isNumbered (floatGlobal types n value) = true :=
  isNumbered_of_form .float rfl

@[simp] theorem isNumbered_bytes (value : String) : isNumbered (bytesGlobal n value) = true :=
  isNumbered_of_form .bytes rfl

@[simp] theorem isNumbered_string (value : String) :
    isNumbered (stringGlobal types n value) = true :=
  isNumbered_of_form .text rfl

@[simp] theorem isNumbered_bool (value : Bool) : isNumbered (boolGlobal types value) = false := by
  rw [isNumbered, form?_truth, Option.isSome_none]

end Numbered

variable {types : Registry} {pool later : Pool}

theorem truthful_empty (types : Registry) : Truthful types {} := rfl

theorem Truthful.add (truthful : Truthful types pool) {globals : List Global}
    (all : ∀ global ∈ globals, isNumbered global = true) : Truthful types (pool.add globals) := by
  have none : globals.filter (fun global => !isNumbered global) = [] :=
    List.filter_eq_nil_iff.mpr fun global mem => by simp [all global mem]
  rw [Truthful, Pool.add, List.filter_append, none, List.append_nil]
  exact truthful

theorem Truthful.bool (truthful : Truthful types pool) (value : Bool) :
    Truthful types (pool.bool types value).2 := by
  cases has : pool.hasBools with
  | true => simpa [Pool.bool, has] using truthful
  | false =>
      have before : pool.globals.filter (fun global => !isNumbered global) = [] := by
        simpa [Truthful, has] using truthful
      simp [Pool.bool, has, Truthful, addBools, before, truths]

/-- A pool has the truth values, once they were met, and the numbers and texts. -/
theorem Truthful.perm (truthful : Truthful types pool) :
    pool.globals.Perm ((if pool.hasBools then truths types else []) ++ pool.numbered) := by
  rw [← truthful]
  exact (List.filter_append_perm isNumbered pool.globals).symm.trans List.perm_append_comm

namespace Later

theorem trans {last : Pool} (h₁ : Later types pool later) (h₂ : Later types later last) :
    Later types pool last := by
  induction h₂ with
  | refl => exact h₁
  | bool value _ ih => exact .bool value ih
  | int value _ ih => exact .int value ih
  | float value _ ih => exact .float value ih
  | string value _ ih => exact .string value ih

theorem count_le (h : Later types pool later) : pool.count ≤ later.count := by
  induction h with
  | refl => exact Nat.le_refl _
  | @bool later value _ ih =>
      have same : (later.bool types value).2.count = later.count := by
        unfold Pool.bool
        split <;> rfl
      rwa [same]
  | int _ _ ih | float _ _ ih | string _ _ ih => exact Nat.le_succ_of_le ih

theorem regular (h : Later types pool later) (before : Regular types pool) :
    Regular types later := by
  induction h with
  | refl => exact before
  | bool value _ ih => exact (added_bool types _ value).regular ih
  | int value _ ih => exact (added_int types _ value).regular ih
  | float value _ ih => exact (added_float types _ value).regular ih
  | string value _ ih => exact (added_string types _ value).regular ih

theorem truthful (h : Later types pool later) (before : Truthful types pool) :
    Truthful types later := by
  induction h with
  | refl => exact before
  | bool value _ ih => exact ih.bool value
  | int value _ ih => exact ih.add (by simp)
  | float value _ ih => exact ih.add (by simp)
  | string value _ ih => exact ih.add (by simp)

end Later

/-! ## Constants with other numbers -/

section Behind

variable (number : Nat → Nat)

theorem rename_int (types : Registry) (n : Nat) (value : Int64) :
    (intGlobal types n value).rename (renumber number) = intGlobal types (number n) value := by
  simp only [Global.rename, intGlobal, Init.rename, Global.mk.injEq, and_true]
  exact renumber_symbol number .int n

theorem rename_float (types : Registry) (n : Nat) (value : Binary64) :
    (floatGlobal types n value).rename (renumber number) = floatGlobal types (number n) value := by
  simp only [Global.rename, floatGlobal, Init.rename, Global.mk.injEq, and_true]
  exact renumber_symbol number .float n

theorem rename_bytes (n : Nat) (value : String) :
    (bytesGlobal n value).rename (renumber number) = bytesGlobal (number n) value := by
  simp only [Global.rename, bytesGlobal, Init.rename, Global.mk.injEq, and_true]
  exact renumber_symbol number .bytes n

theorem rename_string (types : Registry) (n : Nat) (value : String) :
    (stringGlobal types n value).rename (renumber number) =
      stringGlobal types (number n) value := by
  simp only [Global.rename, stringGlobal, Init.rename, Global.mk.injEq, Init.header.injEq,
    true_and]
  exact ⟨renumber_symbol number .text n, renumber_symbol number .bytes n⟩

@[simp] theorem rename_bool (types : Registry) (value : Bool) :
    (boolGlobal types value).rename (renumber number) = boolGlobal types value := by
  rw [Global.rename, renumber_truth]
  rfl

theorem rename_literal (change : String → String) (type : TypeId) (global : Global) :
    (literal type global).rename change = literal type (global.rename change) := rfl

variable (before pool : Pool)

/-- A pool as it is if another one was there before. -/
def behind : Pool where
  globals := before.globals ++
    (pool.globals.filter fun global => isNumbered global || !before.hasBools).map
      (·.rename (renumber number))
  count := before.count + pool.count
  hasBools := before.hasBools || pool.hasBools

theorem behind_empty : behind number before {} = before := by
  simp [behind]

theorem isNumbered_rename (global : Global) :
    isNumbered (global.rename (renumber number)) = isNumbered global := by
  rw [isNumbered, isNumbered, Global.rename, form?_renumber]

/-- The numbers and texts are all there behind another pool. -/
theorem numbered_behind : (behind number before pool).numbered =
    before.numbered ++ pool.numbered.map (·.rename (renumber number)) := by
  have same : ∀ global, (isNumbered global && (isNumbered global || !before.hasBools)) =
      isNumbered global := by
    intro global
    cases isNumbered global <;> rfl
  simp only [numbered, behind, List.filter_append, List.filter_map, Function.comp_def,
    isNumbered_rename, List.filter_filter, same]

theorem behind_add {globals : List Global} (all : ∀ global ∈ globals, isNumbered global = true) :
    behind number before (pool.add globals) =
      (behind number before pool).add (globals.map (·.rename (renumber number))) := by
  have kept : globals.filter (fun global => isNumbered global || !before.hasBools) = globals :=
    List.filter_eq_self.mpr fun global mem => by simp [all global mem]
  simp [behind, add, kept, Nat.add_assoc]

/-- A literal that is added behind another pool is the same but for its number. -/
def Follows (add : Pool → Value × Pool) : Prop :=
  add (behind number before pool) =
    ((add pool).1.rename (renumber number), behind number before (add pool).2)

variable {number before pool}

theorem follows_bool (value : Bool) : Follows number before pool (·.bool types value) := by
  have same : (literal Registry.bool (boolGlobal types value)).rename (renumber number) =
      literal Registry.bool (boolGlobal types value) := by
    rw [rename_literal, rename_bool]
  cases had : before.hasBools <;> cases has : pool.hasBools <;>
    simp [Follows, Pool.bool, behind, had, has, addBools, same]

variable (shifted : number pool.count = before.count + pool.count)

include shifted

/-- A literal whose constants have its number. -/
theorem follows_add {type : TypeId} (global : Nat → Global) (globals : Nat → List Global)
    (all : ∀ global ∈ globals pool.count, isNumbered global = true)
    (stands : (global pool.count).rename (renumber number) = global (number pool.count))
    (others : (globals pool.count).map (·.rename (renumber number)) = globals (number pool.count)) :
    Follows number before pool fun pool =>
      (literal type (global pool.count), pool.add (globals pool.count)) := by
  simp only [Follows]
  rw [behind_add number before pool all, rename_literal, stands, others, shifted]
  rfl

theorem follows_int (value : Int64) : Follows number before pool (·.int types value) :=
  follows_add shifted (intGlobal types · value) (fun n => [intGlobal types n value])
    (by simp) (rename_int number types _ value) (by simp [rename_int])

theorem follows_float (value : Binary64) : Follows number before pool (·.float types value) :=
  follows_add shifted (floatGlobal types · value) (fun n => [floatGlobal types n value])
    (by simp) (rename_float number types _ value) (by simp [rename_float])

theorem follows_string (value : String) : Follows number before pool (·.string types value) :=
  follows_add shifted (stringGlobal types · value)
    (fun n => [bytesGlobal n value, stringGlobal types n value])
    (by simp) (rename_string number types _ value) (by simp [rename_bytes, rename_string])

end Behind

end LlvmBackend.Pool
