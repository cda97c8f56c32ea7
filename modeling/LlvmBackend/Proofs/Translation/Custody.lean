import LlvmBackend.Proofs.Code.Intact
import LlvmBackend.Proofs.Translation.Supplied

/-! # Values in custody

What a consumer may rely on while it has a value: what the value is made of is intact, and if the
consumer owns it, then its address stands for a slot that holds the result of a call. Each step of
the lowering keeps this for the values that it passes on, and uses up only slots that it owns.
-/

namespace LlvmBackend

open Ir Custody
open Lowering (teardown)

theorem Value.mem_operands {v : Value} {address : Operand} (eq : v.address = some address) :
    address ∈ v.storage.operands := by
  unfold Value.address Storage.address at eq
  split at eq <;> simp_all [Storage.operands]

theorem Storage.operands_withoutCache (storage : Storage) :
    storage.withoutCache.operands ⊆ storage.operands := by
  cases storage <;> simp [withoutCache, operands]

/-- A value is intact, and its consumer can tear it down by using up one of the given slots if it
    owns the value where control stands. -/
structure Held (types : Registry) (spent region : List Nat) (custody : Custody) (v : Value) :
    Prop where
  storage : ∀ operand ∈ v.storage.operands, Intact region custody operand
  flag : Intact region custody v.binding.flag
  decided : ∃ owned, custody.eval v.binding.flag = .bool owned
  owned : (types.method v.type teardown).isSome → custody.eval v.binding.flag = .bool true →
    ∃ address n, v.address = some address ∧ custody.eval address = .temp n ∧
      custody.ledger.phase n = .given ∧ n ∈ spent

namespace Held

variable {types : Registry} {spent region more : List Nat} {custody later : Custody} {v : Value}

theorem mono {spent' : List Nat} (held : Held types spent region custody v) (sub : spent ⊆ spent')
    (sub' : region ⊆ more) : Held types spent' more custody v where
  storage := fun operand mem => (held.storage operand mem).mono sub'
  flag := held.flag.mono sub'
  decided := held.decided
  owned := by
    intro disposable owned
    obtain ⟨address, n, found, value, given, mem⟩ := held.owned disposable owned
    exact ⟨address, n, found, value, given, sub mem⟩

/-- A value is left alone by what is confined to another region. -/
theorem confined (held : Held types spent region custody v) (h : Confined more custody later)
    (apart : region.Disjoint more) : Held types spent region later v where
  storage := fun operand mem => (held.storage operand mem).confined h apart
  flag := held.flag.confined h apart
  decided := by
    rw [h.eval held.flag apart]
    exact held.decided
  owned := by
    intro disposable owned
    rw [h.eval held.flag apart] at owned
    obtain ⟨address, n, found, value, given, mem⟩ := held.owned disposable owned
    have intact := held.storage address (Value.mem_operands found)
    have inside := (intact.slot n value).1
    exact ⟨address, n, found, by rw [h.eval intact apart, value], h.given n (apart inside) given, mem⟩

/-- A slot that is used up is one of the value. -/
theorem within (held : Held types spent region custody v) :
    Held types (spent ∩ region) region custody v where
  storage := held.storage
  flag := held.flag
  decided := held.decided
  owned := by
    intro disposable owned
    obtain ⟨address, n, found, value, given, mem⟩ := held.owned disposable owned
    have inside := ((held.storage address (Value.mem_operands found)).slot n value).1
    exact ⟨address, n, found, value, given, List.mem_inter_iff.mpr ⟨mem, inside⟩⟩

theorem of_not_owns (held : Held types spent region custody v) (other : v.binding.owns = false) :
    Held types [] region custody v where
  storage := held.storage
  flag := held.flag
  decided := held.decided
  owned := by
    intro _ owned
    cases binding : v.binding <;> simp [binding, Binding.owns] at other <;>
      simp [binding, Binding.flag, eval, Operand.under] at owned

theorem of_no_method (held : Held types spent region custody v)
    (none : types.method v.type teardown = none) : Held types [] region custody v where
  storage := held.storage
  flag := held.flag
  decided := held.decided
  owned := by
    intro disposable
    simp [none] at disposable

/-- Who owns a value may be said otherwise, if it is owned then only where it was. -/
theorem rebind {type : TypeId} {storage : Storage} {binding binding' : Binding}
    (held : Held types spent region custody ⟨type, storage, binding⟩)
    (flag : Intact region custody binding'.flag)
    (decided : ∃ owned, custody.eval binding'.flag = .bool owned)
    (owned : custody.eval binding'.flag = .bool true → custody.eval binding.flag = .bool true) :
    Held types spent region custody ⟨type, storage, binding'⟩ where
  storage := held.storage
  flag := flag
  decided := decided
  owned := fun disposable isOwned => held.owned disposable (owned isOwned)

theorem borrowed (held : Held types spent region custody v) :
    Held types [] region custody v.borrowed := by
  unfold Value.borrowed
  split
  · refine ⟨?_, intact_of_constant rfl, ⟨false, rfl⟩, ?_⟩
    · intro operand mem
      exact held.storage operand (Storage.operands_withoutCache _ mem)
    · intro _ owned
      cases owned
  · next other => exact held.of_not_owns (by simpa using other)

end Held

/-- Values are held, each in a region of its own. -/
def HeldAll (types : Registry) (spent : List Nat) (custody : Custody) : List Nat → List Value → Prop
  | _, [] => True
  | region, v :: vs => ∃ first rest, first.Disjoint rest ∧ first ⊆ region ∧ rest ⊆ region ∧
      Held types spent first custody v ∧ HeldAll types spent custody rest vs

namespace HeldAll

variable {types : Registry} {spent region more : List Nat} {custody later : Custody}
  {vs : List Value}

theorem mono {spent' : List Nat} (held : HeldAll types spent custody region vs)
    (sub : spent ⊆ spent') (sub' : region ⊆ more) : HeldAll types spent' custody more vs := by
  induction vs generalizing region more with
  | nil => trivial
  | cons v vs ih =>
      obtain ⟨first, rest, apart, le, le', head, tail⟩ := held
      exact ⟨first, rest, apart, List.Subset.trans le sub', List.Subset.trans le' sub',
        head.mono sub (List.Subset.refl _), ih tail (List.Subset.refl _)⟩

theorem confined (held : HeldAll types spent custody region vs) (h : Confined more custody later)
    (apart : region.Disjoint more) : HeldAll types spent later region vs := by
  induction vs generalizing region with
  | nil => trivial
  | cons v vs ih =>
      obtain ⟨first, rest, apart', le, le', head, tail⟩ := held
      exact ⟨first, rest, apart', le, le',
        head.confined h (List.disjoint_of_subset_left le apart),
        ih tail (List.disjoint_of_subset_left le' apart)⟩

theorem single {v : Value} (held : Held types spent region custody v) :
    HeldAll types spent custody region [v] :=
  ⟨region, [], List.disjoint_nil_right _, List.Subset.refl _, List.nil_subset _, held, trivial⟩

end HeldAll

namespace Translation

open Code

variable {types : Registry} {env : Surroundings} {spent region : List Nat} {custody : Custody}
  {v w : Value} {code : Code} {operand address : Operand}

theorem Loads.runs (loads : Loads types v code operand w) (held : Held types spent region custody v)
    (apart : region.Disjoint code.temps) :
    code.Runs custody fun later => Confined code.temps custody later ∧
      Intact (region ++ code.temps) later operand ∧
      Held types spent (region ++ code.temps) later w := by
  cases loads with
  | direct | cached =>
      apply runs_skip
      exact ⟨.refl _ _, (held.storage _ (by simp [Storage.operands])).mono (by simp),
        held.mono (List.Subset.refl _) (by simp)⟩
  | @addressed type address binding n _ =>
      have new : n ∉ region := by
        intro mem
        exact apart mem (List.mem_singleton_self n)
      apply runs_load (held.storage address (by simp [Storage.operands])) new
      intro later confined loaded
      have still : Held types spent (region ++ [n]) later ⟨type, .addressed address, binding⟩ :=
        (held.confined confined apart).mono (List.Subset.refl _) (by simp)
      have there := still.storage address (by simp [Storage.operands])
      refine ⟨confined, loaded, ?_⟩
      by_cases owns : binding.owns
      · simp only [if_pos owns]
        refine ⟨?_, still.flag, still.decided, still.owned⟩
        simpa [Storage.operands] using ⟨there, loaded⟩
      · simp only [if_neg owns]
        exact still

theorem Places.runs (places : Places types v code address w)
    (held : Held types spent region custody v) (apart : region.Disjoint code.temps) :
    code.Runs custody fun later => Confined code.temps custody later ∧
      Intact (region ++ code.temps) later address ∧
      Held types spent (region ++ code.temps) later w := by
  cases places with
  | addressed | cached =>
      apply runs_skip
      exact ⟨.refl _ _, (held.storage _ (by simp [Storage.operands])).mono (by simp),
        held.mono (List.Subset.refl _) (by simp)⟩
  | @direct type operand binding n _ =>
      apply runs_seq
      apply runs_alloca
      intro placed defines _
      have intact := held.storage operand (by simp [Storage.operands])
      have still := held.confined defines.confined apart
      have slot : Intact (region ++ [n]) placed (.temp n) := defines.intact (by simp) (by simp)
      apply runs_spill ((intact.confined defines.confined apart).mono (by simp)) slot defines.value
      intro later confined
      have unchanged := List.disjoint_nil_right (region ++ [n])
      have slot := slot.confined confined unchanged
      have still := (still.mono (List.Subset.refl _) (by simp)).confined confined unchanged
      refine ⟨defines.confined.append confined, slot, ?_, still.flag, still.decided, ?_⟩
      · simpa [Storage.operands, Code.temps, Instr.number?, Instr.dest, Operand.temp?] using slot
      · -- What has no address yet is not owned.
        intro disposable owned
        obtain ⟨address, _, found, _⟩ := still.owned disposable owned
        cases found

theorem Passes.runs {typed : TypedOperand} (passes : Passes types v code typed w)
    (held : Held types spent region custody v) (apart : region.Disjoint code.temps) :
    code.Runs custody fun later => Confined code.temps custody later ∧
      Intact (region ++ code.temps) later typed.operand ∧
      Held types spent (region ++ code.temps) later w := by
  cases passes with
  | byValue _ loads => exact loads.runs held apart
  | byAddress _ places => exact places.runs held apart

theorem PassesAll.runs {vs ws : List Value} {operands : List TypedOperand}
    (passes : PassesAll types vs code operands ws) (held : HeldAll types spent custody region vs)
    (apart : region.Disjoint code.temps) (nodup : code.temps.Nodup) :
    code.Runs custody fun later => Confined code.temps custody later ∧
      (∀ typed ∈ operands, Intact (region ++ code.temps) later typed.operand) ∧
      HeldAll types spent later (region ++ code.temps) ws := by
  induction passes generalizing region custody with
  | nil => exact runs_skip ⟨.refl _ _, by simp, trivial⟩
  | @cons v code typed w vs code' operands ws passes _ ih =>
      obtain ⟨first, rest, parted, le, le', head, tail⟩ := held
      simp only [Code.temps, List.disjoint_append_right] at apart
      obtain ⟨nodup₁, nodup₂, between⟩ := List.nodup_append'.mp nodup
      obtain ⟨apart₁, apart₂⟩ := apart
      apply runs_seq
      apply (passes.runs head (List.disjoint_of_subset_left le apart₁)).mono
      rintro placed ⟨confined, intact, head⟩
      have tail := tail.confined confined (List.disjoint_of_subset_left le' apart₁)
      apply (ih tail (List.disjoint_of_subset_left le' apart₂) nodup₂).mono
      rintro later ⟨confined', intact', tail⟩
      have first_apart : (first ++ code.temps).Disjoint code'.temps :=
        List.disjoint_append_left.mpr ⟨List.disjoint_of_subset_left le apart₂, between⟩
      have sub : first ++ code.temps ⊆ region ++ (Code.seq code code').temps := by
        intro n mem
        have := @le n
        grind [Code.temps]
      have sub' : rest ++ code'.temps ⊆ region ++ (Code.seq code code').temps := by
        intro n mem
        have := @le' n
        grind [Code.temps]
      have head := head.confined confined' first_apart
      refine ⟨confined.append confined', ?_, first ++ code.temps, rest ++ code'.temps, ?_, sub, sub',
        head, tail⟩
      · intro other mem
        rcases List.mem_cons.mp mem with rfl | mem
        · exact (intact.confined confined' first_apart).mono sub
        · exact (intact' other mem).mono sub'
      · simp only [List.disjoint_append_left, List.disjoint_append_right]
        exact ⟨⟨parted, List.disjoint_comm.mp (List.disjoint_of_subset_left le' apart₁)⟩,
          List.disjoint_of_subset_left le apart₂, between⟩

theorem Releases.temps (releases : Releases types v code) : code.temps = [] := by
  cases releases <;> rfl

/-- Tearing a value down uses up the slot that its consumer owns. -/
theorem Releases.runs (releases : Releases types v code)
    (held : Held types spent region custody v) : code.Runs custody (Confined spent custody) := by
  cases releases with
  | nothing => exact runs_skip (.refl _ _)
  | @always address entry found method binding =>
      have owned : custody.eval v.binding.flag = .bool true := by
        rw [binding]
        rfl
      obtain ⟨address', n, found', value, given, mem⟩ := held.owned (by simp [method]) owned
      cases Option.some.inj (found.symm.trans found')
      apply runs_teardown value given
      intro later confined
      exact confined.mono (by simpa using mem)
  | @guarded address entry flag owned fin found method binding =>
      apply runs_fork
      · intro mayBe block
        obtain ⟨value, decided⟩ := held.decided
        have flag_eq : custody.eval (.temp flag) = .bool value := by
          rw [← decided, binding]
          rfl
        cases mayBe value flag_eq
        obtain ⟨address', n, found', value, given, mem⟩ := held.owned (by simp [method]) decided
        cases Option.some.inj (found.symm.trans found')
        apply runs_seq
        have there : (custody.leave block).eval address = .temp n := value
        apply runs_teardown there given
        intro placed confined
        apply runs_jump
        have entered := confined_leave spent custody block
        exact (entered.trans (confined.mono (by simpa using mem))).trans (confined_leave _ _ _)
      · intro _ block
        exact runs_skip (confined_leave _ _ _)

theorem ReleasesAll.temps {vs : List Value} (releases : ReleasesAll types vs code) :
    code.temps = [] := by
  induction releases with
  | nil => rfl
  | cons releases _ ih => rw [Code.temps, releases.temps, ih, List.append_nil]

theorem ReleasesAll.runs {vs : List Value} (releases : ReleasesAll types vs code)
    (held : HeldAll types spent custody region vs) :
    code.Runs custody (Confined (spent ∩ region) custody) := by
  induction releases generalizing region custody with
  | nil => exact runs_skip (.refl _ _)
  | cons releases _ ih =>
      obtain ⟨first, rest, parted, le, le', head, tail⟩ := held
      apply runs_seq
      apply (releases.runs head.within).mono
      intro later confined
      have others : rest.Disjoint (spent ∩ first) := by
        intro n mem mem'
        exact parted (List.mem_inter_iff.mp mem').2 mem
      apply (ih (tail.confined confined others)).mono
      intro last confined'
      apply (confined.mono _).trans (confined'.mono _)
      · intro n mem
        obtain ⟨used, inside⟩ := List.mem_inter_iff.mp mem
        exact List.mem_inter_iff.mpr ⟨used, le inside⟩
      · intro n mem
        obtain ⟨used, inside⟩ := List.mem_inter_iff.mp mem
        exact List.mem_inter_iff.mpr ⟨used, le' inside⟩

theorem held_temporary {n : Nat} {type : TypeId} (intact : Intact [n] custody (.temp n))
    (value : custody.eval (.temp n) = .temp n) (given : custody.ledger.phase n = .given) :
    Held types [n] [n] custody (.temporary type (.temp n)) where
  storage := by simpa [Value.temporary, Storage.operands] using intact
  flag := intact_of_constant rfl
  decided := ⟨true, rfl⟩
  owned := fun _ _ => ⟨.temp n, n, rfl, value, given, by simp⟩

/-- A call uses up those of its arguments that it owns, and its result is new. -/
theorem Dispatches.runs {callee : Callee} {args : List Value} {result : Option Value}
    (dispatches : Dispatches env callee args code result)
    (held : HeldAll env.types spent custody region args) (apart : region.Disjoint code.temps)
    (nodup : code.temps.Nodup) :
    code.Runs custody fun later => Confined (spent ++ code.temps) custody later ∧
      ∀ v ∈ result, Held env.types code.temps code.temps later v := by
  cases dispatches with
  | @void target passing operands args' releasing _ passes _ releases =>
      have temps : (Code.seq passing (.seq (.instr .plain (.call none .void target.symbol operands))
          releasing)).temps = passing.temps := by
        simp [Code.temps, releases.temps, Instr.number?, Instr.dest]
      rw [temps] at apart nodup ⊢
      apply runs_seq
      apply (passes.runs held apart nodup).mono
      rintro passed ⟨confined, intact, held⟩
      apply runs_seq
      apply runs_call intact
      intro called confined'
      have held := held.confined confined' (List.disjoint_nil_right _)
      apply (releases.runs held).mono
      intro later confined''
      refine ⟨?_, by simp⟩
      apply ((confined.append confined').append confined'').mono
      intro n mem
      grind
  | @result target passing operands args' releasing n _ passes _ releases =>
      have temps : (Code.seq passing (.seq
          (.instr .plain (.alloca (.temp n) ⟨env.types.ir target.returns⟩))
          (.seq (.instr .plain (.call none .void target.symbol
            (operands ++ [⟨.ptr ⟨env.types.ir target.returns⟩, .temp n⟩]))) releasing))).temps =
          passing.temps ++ [n] := by
        simp [Code.temps, releases.temps, Instr.number?, Instr.dest, Operand.temp?]
      rw [temps] at apart nodup ⊢
      obtain ⟨apart₁, apart₂⟩ := List.disjoint_append_right.mp apart
      obtain ⟨nodup₁, _, between⟩ := List.nodup_append'.mp nodup
      have new : (region ++ passing.temps).Disjoint [n] :=
        List.disjoint_append_left.mpr ⟨apart₂, between⟩
      apply runs_seq
      apply (passes.runs held apart₁ nodup₁).mono
      rintro passed ⟨confined, intact, held⟩
      apply runs_call_result intact (by simpa using new)
      intro called confined' slot value given
      have held := held.confined confined' new
      apply (releases.runs held).mono
      intro later confined''
      have others : [n].Disjoint (spent ∩ (region ++ passing.temps)) := by
        intro m mem mem'
        exact new (List.mem_inter_iff.mp mem').2 mem
      constructor
      · apply ((confined.append confined').append confined'').mono
        intro n mem
        grind
      · intro v eq
        cases eq
        exact ((held_temporary slot value given).confined confined'' others).mono (by simp) (by simp)

/-- A truth value is the value itself, or new. -/
theorem Coerces.runs (coerces : Coerces env v code w)
    (held : Held env.types spent region custody v) (apart : region.Disjoint code.temps)
    (nodup : code.temps.Nodup) :
    code.Runs custody fun later => Confined (spent ++ code.temps) custody later ∧
      Held env.types (spent ++ code.temps) (region ++ code.temps) later w ∧
      (v.type ≠ Registry.bool → Held env.types code.temps code.temps later w) := by
  cases coerces with
  | already isBool =>
      apply runs_skip
      exact ⟨.refl _ _, held.mono (by simp) (by simp), fun other => absurd isBool other⟩
  | calls _ dispatches =>
      apply (dispatches.runs (.single held) apart nodup).mono
      rintro later ⟨confined, held⟩
      have held := held w rfl
      exact ⟨confined, held.mono (by simp) (by simp), fun _ => held⟩

/-- The flag of a branch is intact. It comes from the value only if this is a truth value. -/
theorem Tests.runs {flag : Operand} (tests : Tests env v code flag)
    (held : Held env.types spent region custody v) (apart : region.Disjoint code.temps)
    (nodup : code.temps.Nodup) :
    code.Runs custody fun later => Confined (spent ++ code.temps) custody later ∧
      Intact (region ++ code.temps) later flag ∧
      (v.type ≠ Registry.bool → Intact code.temps later flag) := by
  cases tests with
  | intro coerces loads =>
      obtain ⟨apart₁, apart₂⟩ := List.disjoint_append_right.mp apart
      obtain ⟨nodup₁, _, between⟩ := List.nodup_append'.mp nodup
      apply runs_seq
      apply (coerces.runs held apart₁ nodup₁).mono
      rintro coerced ⟨confined, held, others⟩
      by_cases isBool : v.type = Registry.bool
      · apply (loads.runs held (List.disjoint_append_left.mpr ⟨apart₂, between⟩)).mono
        rintro later ⟨confined', intact, _⟩
        refine ⟨?_, ?_, fun other => absurd isBool other⟩
        · simpa [Code.temps] using confined.append confined'
        · simpa [Code.temps] using intact
      · apply (loads.runs (others isBool) between).mono
        rintro later ⟨confined', intact, _⟩
        refine ⟨?_, ?_, fun _ => ?_⟩
        · simpa [Code.temps] using confined.append confined'
        · exact intact.mono (by simp [Code.temps])
        · simpa [Code.temps] using intact

end Translation

end LlvmBackend
