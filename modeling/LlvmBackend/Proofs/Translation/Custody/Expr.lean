import LlvmBackend.Proofs.Translation.Custody

/-! # Expressions keep track of slots

The code of an expression changes nothing but its own registers, and its values are held behind it,
each in a region of its own. A value that comes from one of two blocks is owned where the value of the
block is that control came from.
-/

namespace LlvmBackend

open Ir Custody
open Lowering (teardown Connective)

/-- Wherever code is carried out, it changes only what it defines, and behind it values are held. -/
def Code.Makes (types : Registry) (code : Code) (vs : List Value) : Prop :=
  ∀ custody, code.Runs custody fun later => Confined code.temps custody later ∧
    HeldAll types code.temps later code.temps vs

/-- What a name stands for is owned by the function, and is no numbered register. -/
def Names.Outer (names : Names) : Prop :=
  ∀ name v, names.scopes.lookup name = some v →
    v.binding.owns = false ∧ ∀ operand ∈ v.storage.operands, operand.temp? = none

theorem HeldAll.head {types : Registry} {spent region : List Nat} {custody : Custody} {v : Value}
    {vs : List Value} (held : HeldAll types spent custody region (v :: vs)) :
    Held types spent region custody v := by
  obtain ⟨first, rest, _, le, _, head, _⟩ := held
  exact head.mono (List.Subset.refl _) le

theorem HeldAll.cons {types : Registry} {first second : List Nat} {custody : Custody} {v : Value}
    {vs : List Value} (held : Held types first first custody v)
    (rest : HeldAll types second custody second vs) (apart : first.Disjoint second) :
    HeldAll types (first ++ second) custody (first ++ second) (v :: vs) := by
  refine ⟨first, second, apart, List.subset_append_left _ _, List.subset_append_right _ _, ?_, ?_⟩
  · exact held.mono (List.subset_append_left _ _) (List.Subset.refl _)
  · exact rest.mono (List.subset_append_right _ _) (List.Subset.refl _)

/-- A value that code made with its own registers only. -/
theorem made {types : Registry} {code : Code} {changed spent region : List Nat}
    {custody later : Custody} {v : Value} (confined : Confined changed custody later)
    (held : Held types spent region later v) (sub : changed ⊆ code.temps)
    (sub' : spent ⊆ code.temps) (sub'' : region ⊆ code.temps) :
    Confined code.temps custody later ∧ HeldAll types code.temps later code.temps [v] :=
  ⟨confined.mono sub, .single (held.mono sub' sub'')⟩

namespace Translation

open Code

variable {types : Registry} {env : Surroundings} {spent region : List Nat}
  {custody later : Custody} {v w : Value} {code : Code}

/-! ## Values that no slot is owned for -/

theorem held_truth {operand : Operand} (plain : types.method Registry.bool teardown = none)
    (intact : Intact region custody operand) :
    Held types [] region custody (.direct Registry.bool operand) where
  storage := by simpa [Value.direct, Storage.operands] using intact
  flag := intact_of_constant rfl
  decided := ⟨true, rfl⟩
  owned := by
    intro disposable
    simp [Value.direct, plain] at disposable

theorem held_stable {type : TypeId} {address : Operand} (intact : Intact region custody address) :
    Held types [] region custody (.stable type address) where
  storage := by simpa [Value.stable, Storage.operands] using intact
  flag := intact_of_constant rfl
  decided := ⟨false, rfl⟩
  owned := by
    intro _ owned
    cases owned

theorem Negates.runs (plain : env.types.method Registry.bool teardown = none)
    (negates : Negates env v code w) (held : Held env.types spent region custody v)
    (apart : region.Disjoint code.temps) :
    code.Runs custody fun later => Confined code.temps custody later ∧
      Held env.types code.temps code.temps later w := by
  cases negates with
  | @intro loading flag _ n loads =>
      obtain ⟨apart₁, _⟩ := List.disjoint_append_right.mp apart
      apply runs_seq
      apply (loads.runs held apart₁).mono
      rintro loaded ⟨confined, intact, _⟩
      apply runs_select intact (intact_of_constant rfl) (intact_of_constant rfl)
      intro later defines
      refine ⟨confined.append defines.confined, ?_⟩
      apply (held_truth plain (defines.intact (List.mem_singleton_self n) (by simp))).mono
      · exact List.nil_subset _
      · exact List.subset_append_right _ _

theorem Operates.runs {op : BinaryOperator} {left right : Value}
    (plain : env.types.method Registry.bool teardown = none)
    (operates : Operates env op left right code v)
    (held : HeldAll env.types spent custody region [left, right])
    (apart : region.Disjoint code.temps) (nodup : code.temps.Nodup) :
    code.Runs custody fun later => Confined (spent ++ code.temps) custody later ∧
      Held env.types code.temps code.temps later v := by
  cases operates with
  | plain _ _ dispatches _ =>
      apply (dispatches.runs held apart nodup).mono
      rintro later ⟨confined, held⟩
      exact ⟨confined, held v rfl⟩
  | negated _ _ dispatches _ negates =>
      obtain ⟨apart₁, apart₂⟩ := List.disjoint_append_right.mp apart
      obtain ⟨nodup₁, _, between⟩ := List.nodup_append'.mp nodup
      apply runs_seq
      apply (dispatches.runs held apart₁ nodup₁).mono
      rintro called ⟨confined, held⟩
      apply (negates.runs plain (held _ rfl) between).mono
      rintro later ⟨confined', held⟩
      constructor
      · simpa [Code.temps] using confined.append confined'
      · exact held.mono (List.subset_append_right _ _) (List.subset_append_right _ _)

theorem Indexes.makes {container position : Value} {atContainer atPosition : Code}
    (indexes : Indexes env container position atContainer atPosition code v)
    (makes : atContainer.temps.Nodup → atContainer.Makes env.types [container])
    (makes' : atPosition.temps.Nodup → atPosition.Makes env.types [position])
    (nodup : code.temps.Nodup) : code.Makes env.types [v] := by
  intro custody
  cases indexes with
  | @intro element loading base container' loading' offset position' releasing n _ _ _ loads loads'
      releases =>
      have temps : (Code.seq atContainer (.seq atPosition (.seq loading (.seq loading'
          (.seq (.instr .plain (.elementPtr (.temp n) ⟨env.types.ir element⟩ base
            [⟨⟨env.types.ir position.type⟩, offset⟩])) releasing))))).temps =
          atContainer.temps ++ (atPosition.temps ++ (loading.temps ++ (loading'.temps ++ [n]))) := by
        simp [Code.temps, releases.temps, Instr.number?, Instr.dest, Operand.temp?]
      rw [temps] at nodup ⊢
      simp only [List.nodup_append', List.disjoint_append_right] at nodup
      obtain ⟨nodup₁, ⟨nodup₂, ⟨_, ⟨_, _, new⟩, between, _⟩, positions⟩, containers⟩ := nodup
      apply runs_seq
      apply (makes nodup₁ custody).mono
      rintro first ⟨confined₁, held⟩
      apply runs_seq
      apply (makes' nodup₂ first).mono
      rintro second ⟨confined₂, held'⟩
      have held := held.head.confined confined₂ containers.1
      apply runs_seq
      apply (loads.runs held containers.2.1).mono
      rintro third ⟨confined₃, base, _⟩
      have held' := held'.head.confined confined₃ positions.1
      apply runs_seq
      apply (loads'.runs held' positions.2.1).mono
      rintro fourth ⟨confined₄, offset, held'⟩
      have base := base.confined confined₄ (List.disjoint_append_left.mpr ⟨containers.2.2.1, between⟩)
      have base := base.mono (List.subset_append_left _ (atPosition.temps ++ loading'.temps))
      have offset := offset.mono (List.subset_append_right (atContainer.temps ++ loading.temps) _)
      apply runs_seq
      apply runs_elementPtr base (by simpa using offset)
      intro fifth defines
      have held' := held'.confined defines.confined
        (List.disjoint_append_left.mpr ⟨positions.2.2, new⟩)
      apply (releases.runs held').mono
      intro later confined₆
      have slot : Intact [n] fifth (.temp n) := defines.intact (List.mem_singleton_self n) (by simp)
      have slot := slot.confined confined₆ (List.disjoint_comm.mp positions.2.2)
      constructor
      · have all := ((((confined₁.append confined₂).append confined₃).append confined₄).append
          defines.confined).append confined₆
        apply all.mono
        intro m mem
        grind
      · apply (HeldAll.single (held_stable slot)).mono (List.nil_subset _)
        intro m mem
        grind

/-! ## Values that come from two blocks -/

theorem Places.address_eq {address : Operand} (places : Places types v code address w) :
    w.address = some address := by
  cases places <;> rfl

/-- Control just came from one of the blocks that a value comes from, and the value is held. -/
structure Comes (types : Registry) (spent region : List Nat) (type : TypeId)
    (side : Operand × Binding × BlockId) (custody : Custody) : Prop where
  source : custody.course.source = some side.2.2
  entering : custody.course.entering = custody.course.value
  held : Held types spent region custody ⟨type, .addressed side.1, side.2.1⟩

/-- Control leaves a block with a value at an address. -/
theorem comes_leave {address : Operand} {block : BlockId} (held : Held types spent region custody w)
    (eq : w.address = some address) :
    Comes types spent region w.type (address, w.binding, block) (custody.leave block) where
  source := rfl
  entering := rfl
  held := by
    have held := held.confined (confined_leave [] custody block) (List.disjoint_nil_right _)
    refine ⟨?_, held.flag, held.decided, ?_⟩
    · simpa [Storage.operands] using held.storage address (Value.mem_operands eq)
    · intro disposable owned
      obtain ⟨_, n, found, rest⟩ := held.owned disposable owned
      exact ⟨address, n, rfl, Option.some.inj (found.symm.trans eq) ▸ rest⟩

theorem Comes.mono {spent' more : List Nat} {type : TypeId} {side : Operand × Binding × BlockId}
    (comes : Comes types spent region type side custody) (sub : spent ⊆ spent')
    (sub' : region ⊆ more) : Comes types spent' more type side custody :=
  ⟨comes.source, comes.entering, comes.held.mono sub sub'⟩

/-- A merge of what two blocks have gives what the block has that control came from. -/
theorem arrives_of_source {first second : Operand × BlockId} {operand : Operand} {block : BlockId}
    (ne : first.2 ≠ second.2) (mem : (operand, block) = first ∨ (operand, block) = second)
    (source : custody.course.source = some block)
    (value : operand.under custody.course.entering = custody.eval operand) :
    Arrives [first, second] operand custody := by
  refine ⟨⟨block, ?_⟩, value⟩
  rcases mem with rfl | rfl
  · simp [source]
  · simp [source, ne.symm]

/-- A value keeps its owner under the new name of its address. -/
theorem Comes.merged {type : TypeId} {address : Operand} {binding : Binding} {block : BlockId}
    {p : Nat} (comes : Comes types spent region type (address, binding, block) custody)
    (merges : Merges p address custody later) (new : p ∉ region) :
    Held types spent (p :: region) later ⟨type, .addressed (.temp p), binding⟩ := by
  have intact : Intact region custody address := comes.held.storage address (by simp [Storage.operands])
  have apart : region.Disjoint [p] := by simpa using new
  have held := comes.held.confined merges.confined apart
  refine ⟨?_, held.flag.mono (List.subset_cons_self _ _), held.decided, ?_⟩
  · simpa [Storage.operands] using merges.intact intact new
  · intro disposable owned
    obtain ⟨_, n, found, value, given, mem⟩ := held.owned disposable owned
    cases found
    rw [merges.confined.eval intact apart] at value
    exact ⟨.temp p, n, rfl, merges.value.trans value, given, mem⟩

/-- A merged value is owned where the value is that came in. -/
theorem Owners.runs {type : TypeId} {first second : Binding × BlockId} {storage : Storage}
    {binding binding' : Binding} {block : BlockId}
    (owners : Owners types type first second code binding') (ne : first.2 ≠ second.2)
    (mem : (binding, block) = first ∨ (binding, block) = second)
    (held : Held types spent region custody ⟨type, storage, binding⟩)
    (source : custody.course.source = some block)
    (value : binding.flag.under custody.course.entering = custody.eval binding.flag)
    (apart : region.Disjoint code.temps) :
    code.Runs custody fun later => Confined code.temps custody later ∧
      Held types spent (region ++ code.temps) later ⟨type, storage, binding'⟩ := by
  cases owners with
  | temporary eq eq' =>
      have same : binding = .temporary := by
        rcases mem with rfl | rfl
        · exact eq
        · exact eq'
      apply runs_skip
      exact ⟨.refl _ _, same ▸ held.mono (List.Subset.refl _) (List.subset_append_left _ _)⟩
  | stable _ =>
      have held : Held types spent region custody ⟨type, storage, .stable⟩ :=
        held.rebind (intact_of_constant rfl) ⟨false, rfl⟩ (fun owned => by cases owned)
      apply runs_skip
      exact ⟨.refl _ _, held.mono (List.Subset.refl _) (List.subset_append_left _ _)⟩
  | @flag n _ _ _ =>
      have arrives : Arrives [(first.1.flag, first.2), (second.1.flag, second.2)] binding.flag
          custody := by
        apply arrives_of_source ne _ source value
        apply mem.imp
        · rintro rfl
          rfl
        · rintro rfl
          rfl
      have new : n ∉ region := by
        intro mem
        exact apart mem (List.mem_singleton_self n)
      apply runs_phi arrives
      intro later merges
      have same := merges.confined.eval held.flag (by simpa using new)
      have flag := (merges.intact held.flag new).mono (show n :: region ⊆ region ++ [n] by simp)
      have held := (held.confined merges.confined (by simpa using new)).mono (List.Subset.refl _)
        (List.subset_append_left _ [n])
      have eq : later.eval (.temp n) = later.eval binding.flag := merges.value.trans same.symm
      refine ⟨merges.confined, held.rebind flag ?_ ?_⟩
      · obtain ⟨owned, decided⟩ := held.decided
        exact ⟨owned, eq.trans decided⟩
      · exact eq.symm.trans

/-- A merge of values is held, whichever block control came from. -/
theorem Joins.runs {type : TypeId} {first second side : Operand × Binding × BlockId}
    (joins : Joins types type first second code v) (ne : first.2.2 ≠ second.2.2)
    (mem : side = first ∨ side = second) (comes : Comes types spent region type side custody)
    (apart : region.Disjoint code.temps) (nodup : code.temps.Nodup) :
    code.Runs custody fun later => Confined code.temps custody later ∧
      Held types spent (region ++ code.temps) later v := by
  obtain ⟨address, binding, block⟩ := side
  cases joins with
  | @intro owning binding' p _ owners =>
      obtain ⟨new, apart⟩ := List.disjoint_append_right.mp apart
      obtain ⟨_, _, between⟩ := List.nodup_append'.mp nodup
      have new : p ∉ region := by
        intro mem
        exact new mem (List.mem_singleton_self p)
      have arrives : Arrives [(first.1, first.2.2), (second.1, second.2.2)] address custody := by
        apply arrives_of_source ne _ comes.source
        · rw [comes.entering]
          rfl
        · apply mem.imp
          · rintro rfl
            rfl
          · rintro rfl
            rfl
      apply runs_seq
      apply runs_phi arrives
      intro merged merges
      have flag := merges.confined.eval comes.held.flag (by simpa using new)
      have held := comes.merged merges new
      have value : binding.flag.under merged.course.entering = merged.eval binding.flag := by
        rw [merges.entering, comes.entering, flag]
        rfl
      have among : (binding, block) = first.2 ∨ (binding, block) = second.2 := by
        apply mem.imp
        · rintro rfl
          rfl
        · rintro rfl
          rfl
      have outside : (p :: region).Disjoint owning.temps := by
        rw [List.disjoint_cons_left]
        exact ⟨fun mem => between (List.mem_singleton_self p) mem, apart⟩
      apply (owners.runs ne among held (merges.source.trans comes.source) value outside).mono
      rintro later ⟨confined, held⟩
      refine ⟨merges.confined.append confined, held.mono (List.Subset.refl _) ?_⟩
      intro n mem
      have first : n = p → n ∈ (instr .plain (.phi (.temp p) (.ptr ⟨types.ir type⟩)
          [(first.1, first.2.2), (second.1, second.2.2)])).temps := by
        rintro rfl
        exact List.mem_singleton_self n
      grind [Code.temps]

/-! ## Branches that meet again -/

/-- A side of a branch goes on where the sides meet. -/
theorem runs_side {block fin : BlockId} {post : Custody → Prop}
    (h : code.Runs custody fun later => post (later.leave block)) :
    (seq code (jump block fin)).Runs custody post :=
  runs_seq (h.mono fun _ holds => runs_jump holds)

/-- Two sides that meet with a value each go on with one of the two. -/
theorem runs_meet {type : TypeId} {first second one other : Operand × Binding × BlockId}
    {taken : Bool} {flag : Operand} {a b fin : BlockId} {atOne atOther merging : Code}
    {changed : List Nat} (joins : Joins types type first second merging v)
    (ne : first.2.2 ≠ second.2.2) (one_mem : one = first ∨ one = second)
    (other_mem : other = first ∨ other = second)
    (runs : ∀ block, atOne.Runs (custody.leave block) fun later =>
      Confined changed (custody.leave block) later ∧
        Comes types spent region type one (later.leave one.2.2))
    (runs' : ∀ block, atOther.Runs (custody.leave block) fun later =>
      Confined changed (custody.leave block) later ∧
        Comes types spent region type other (later.leave other.2.2))
    (apart : region.Disjoint merging.temps) (nodup : merging.temps.Nodup) :
    (seq (sides taken flag a b (seq atOne (jump one.2.2 fin)) (seq atOther (jump other.2.2 fin)))
      merging).Runs custody fun later => Confined (changed ++ merging.temps) custody later ∧
        Held types spent (region ++ merging.temps) later v := by
  have meets : (sides taken flag a b (seq atOne (jump one.2.2 fin))
      (seq atOther (jump other.2.2 fin))).Runs custody fun later => Confined changed custody later ∧
        ∃ side, (side = first ∨ side = second) ∧ Comes types spent region type side later := by
    apply runs_sides
    · intro block
      apply runs_side
      apply (runs block).mono
      rintro later ⟨confined, comes⟩
      have entered := confined_leave changed custody block
      exact ⟨(entered.trans confined).trans (confined_leave _ _ _), one, one_mem, comes⟩
    · intro block
      apply runs_side
      apply (runs' block).mono
      rintro later ⟨confined, comes⟩
      have entered := confined_leave changed custody block
      exact ⟨(entered.trans confined).trans (confined_leave _ _ _), other, other_mem, comes⟩
  apply runs_seq
  apply meets.mono
  rintro met ⟨confined, side, mem, comes⟩
  apply (joins.runs ne mem comes apart nodup).mono
  rintro later ⟨confined', held⟩
  exact ⟨confined.append confined', held⟩

/-- Two sides that meet with an operand each go on with one of the two. -/
theorem runs_meet_operands {operand operand' : Operand} {block block' : BlockId} {taken : Bool}
    {flag : Operand} {a b fin : BlockId} {atOne atOther : Code} {changed : List Nat} {n : Nat}
    {type : IrType} (ne : block' ≠ block)
    (runs : ∀ from', atOne.Runs (custody.leave from') fun later =>
      Confined changed (custody.leave from') later ∧ Intact region later operand)
    (runs' : ∀ from', atOther.Runs (custody.leave from') fun later =>
      Confined changed (custody.leave from') later ∧ Intact region later operand')
    (new : n ∉ region) :
    (seq (sides taken flag a b (seq atOne (jump block fin)) (seq atOther (jump block' fin)))
      (instr .plain (.phi (.temp n) type [(operand', block'), (operand, block)]))).Runs custody
        fun later => Confined (changed ++ [n]) custody later ∧ Intact (n :: region) later (.temp n) := by
  have meets : (sides taken flag a b (seq atOne (jump block fin))
      (seq atOther (jump block' fin))).Runs custody fun later => Confined changed custody later ∧
        ∃ met, Arrives [(operand', block'), (operand, block)] met later ∧ Intact region later met := by
    apply runs_sides
    · intro from'
      apply runs_side
      apply (runs from').mono
      rintro later ⟨confined, intact⟩
      have entered := confined_leave changed custody from'
      refine ⟨(entered.trans confined).trans (confined_leave _ _ _), operand, ?_, ?_⟩
      · exact arrives_of_source ne (.inr rfl) rfl rfl
      · exact intact.confined (confined_leave [] _ _) (List.disjoint_nil_right _)
    · intro from'
      apply runs_side
      apply (runs' from').mono
      rintro later ⟨confined, intact⟩
      have entered := confined_leave changed custody from'
      refine ⟨(entered.trans confined).trans (confined_leave _ _ _), operand', ?_, ?_⟩
      · exact arrives_of_source ne (.inl rfl) rfl rfl
      · exact intact.confined (confined_leave [] _ _) (List.disjoint_nil_right _)
  apply runs_seq
  apply meets.mono
  rintro met ⟨confined, operand, arrives, intact⟩
  apply runs_phi arrives
  intro later merges
  exact ⟨confined.append merges.confined, merges.intact intact new⟩

theorem Places.comes {address : Operand} (places : Places types v code address w) (block : BlockId)
    (held : Held types spent region custody v) (apart : region.Disjoint code.temps) :
    code.Runs custody fun later => Confined code.temps custody later ∧
      Comes types spent (region ++ code.temps) v.type (address, v.binding, block)
        (later.leave block) := by
  apply (places.runs held apart).mono
  rintro later ⟨confined, _, held⟩
  have comes := @comes_leave _ _ _ _ _ _ block held places.address_eq
  rw [places.type_eq, places.binding_eq] at comes
  exact ⟨confined, comes⟩

/-- Where the right operand of a connective is evaluated, the left one is torn down. -/
theorem runs_right {left right right' : Value} {address : Operand} {atRight placing releasing : Code}
    (makes : atRight.Makes types [right]) (places : Places types right placing address right')
    (releases : Releases types left releasing) (block : BlockId)
    (held : Held types spent region custody left) (apart : region.Disjoint atRight.temps)
    (apart' : region.Disjoint placing.temps) (between : atRight.temps.Disjoint placing.temps) :
    (seq atRight (seq placing releasing)).Runs custody fun later =>
      Confined (atRight.temps ++ placing.temps ++ spent) custody later ∧
        Comes types atRight.temps (atRight.temps ++ placing.temps) right.type
          (address, right.binding, block) (later.leave block) := by
  apply runs_seq
  apply (makes custody).mono
  rintro first ⟨confined₁, heldRight⟩
  have held := held.confined confined₁ apart
  apply runs_seq
  apply (places.runs heldRight.head between).mono
  rintro second ⟨confined₂, _, heldRight⟩
  have held := held.confined confined₂ apart'
  apply (releases.runs held.within).mono
  intro third confined₃
  have others : (atRight.temps ++ placing.temps).Disjoint (spent ∩ region) := by
    intro n mem mem'
    have inside := (List.mem_inter_iff.mp mem').2
    rcases List.mem_append.mp mem with mem | mem
    · exact apart inside mem
    · exact apart' inside mem
  have comes := @comes_leave _ _ _ _ _ _ block (heldRight.confined confined₃ others) places.address_eq
  rw [places.type_eq, places.binding_eq] at comes
  refine ⟨?_, comes⟩
  apply ((confined₁.append confined₂).append confined₃).mono
  intro n mem
  grind

theorem temps_meet_perm (taken : Bool) (flag : Operand) (a b c d fin : BlockId)
    (one other merging : Code) :
    (seq (sides taken flag a b (seq one (jump c fin)) (seq other (jump d fin))) merging).temps.Perm
      (one.temps ++ other.temps ++ merging.temps) := by
  apply List.Perm.append_right
  have perm := temps_sides_perm taken flag a b (seq one (jump c fin)) (seq other (jump d fin))
  simpa [Code.temps] using perm

/-- The right operand is the value where the flag of the left one does not decide, and the left one is
    torn down there. -/
theorem runs_alike {left right left' right' : Value} {flag leftAddress rightAddress : Operand}
    {taken : Bool} {rightStart rightEnd skip join : BlockId}
    {atRight placing releasing placing' merging : Code} (same : right.type = left.type)
    (makes : atRight.temps.Nodup → atRight.Makes types [right])
    (places : Places types right placing rightAddress right')
    (releases : Releases types left releasing)
    (places' : Places types left placing' leftAddress left') (ne : rightEnd ≠ skip)
    (joins : Joins types left.type (leftAddress, left.binding, skip)
      (rightAddress, right.binding, rightEnd) merging v)
    (held : Held types spent region custody left)
    (apart : region.Disjoint (atRight.temps ++ placing.temps ++ placing'.temps ++ merging.temps))
    (nodup : (atRight.temps ++ placing.temps ++ placing'.temps ++ merging.temps).Nodup) :
    (seq (sides taken flag rightStart skip
        (seq (seq atRight (seq placing releasing)) (jump rightEnd join))
        (seq placing' (jump skip join))) merging).Runs custody fun later =>
      Confined (spent ++ (atRight.temps ++ placing.temps ++ placing'.temps) ++ merging.temps) custody
        later ∧
      Held types (spent ++ atRight.temps)
        (region ++ (atRight.temps ++ placing.temps ++ placing'.temps) ++ merging.temps) later v := by
  simp only [List.nodup_append', List.disjoint_append_left, List.disjoint_append_right]
    at nodup apart
  obtain ⟨⟨⟨nodupRight, _, between⟩, _, _⟩, nodup, ⟨between₁, between₂⟩, between₃⟩ := nodup
  obtain ⟨⟨⟨apart₁, apart₂⟩, apart₃⟩, apart₄⟩ := apart
  have entered := fun block => held.confined (confined_leave [] custody block)
    (List.disjoint_nil_right _)
  have right_comes : ∀ block, (Code.seq atRight (.seq placing releasing)).Runs
      (custody.leave block) fun later =>
      Confined (spent ++ (atRight.temps ++ placing.temps ++ placing'.temps)) (custody.leave block)
        later ∧
      Comes types (spent ++ atRight.temps)
        (region ++ (atRight.temps ++ placing.temps ++ placing'.temps)) left.type
        (rightAddress, right.binding, rightEnd) (later.leave rightEnd) := by
    intro block
    apply (runs_right (makes nodupRight) places releases rightEnd (entered block) apart₁ apart₂
      between).mono
    rintro later ⟨confined, comes⟩
    rw [same] at comes
    constructor
    · apply confined.mono
      intro n mem
      grind
    · apply comes.mono (List.subset_append_right _ _)
      intro n mem
      grind
  have left_comes : ∀ block, placing'.Runs (custody.leave block) fun later =>
      Confined (spent ++ (atRight.temps ++ placing.temps ++ placing'.temps)) (custody.leave block)
        later ∧
      Comes types (spent ++ atRight.temps)
        (region ++ (atRight.temps ++ placing.temps ++ placing'.temps)) left.type
        (leftAddress, left.binding, skip) (later.leave skip) := by
    intro block
    apply (places'.comes skip (entered block) apart₃).mono
    rintro later ⟨confined, comes⟩
    constructor
    · apply confined.mono
      intro n mem
      grind
    · apply comes.mono (List.subset_append_left _ _)
      intro n mem
      grind
  have outside : (region ++ (atRight.temps ++ placing.temps ++ placing'.temps)).Disjoint
      merging.temps := by
    simp only [List.disjoint_append_left]
    exact ⟨apart₄, ⟨between₁, between₂⟩, between₃⟩
  exact runs_meet joins ne.symm (.inr rfl) (.inl rfl) right_comes left_comes outside nodup

/-- The flag of the right operand is the value where that of the left one does not decide, and the
    left operand is torn down behind both. -/
theorem runs_flags (plain : env.types.method Registry.bool teardown = none) {left right : Value}
    {flag flag' : Operand} {flags : List Nat} {taken : Bool}
    {rightStart rightEnd skip join : BlockId} {atRight testing releasing : Code} {n : Nat}
    (makes : atRight.temps.Nodup → atRight.Makes env.types [right])
    (tests : Tests env right testing flag') (releases : Releases env.types left releasing)
    (ne : rightEnd ≠ skip) (held : Held env.types spent region custody left)
    (intact : Intact flags custody flag) (safe : flags.Disjoint spent)
    (apart : region.Disjoint (atRight.temps ++ testing.temps ++ [n]))
    (apart' : n ∉ flags) (nodup : (atRight.temps ++ testing.temps ++ [n]).Nodup) :
    (seq (seq (sides taken flag rightStart skip
          (seq (seq atRight testing) (jump rightEnd join)) (seq .skip (jump skip join)))
        (instr .plain (.phi (.temp n) .i1 [(flag, skip), (flag', rightEnd)])))
      releasing).Runs custody fun later =>
      Confined (atRight.temps ++ testing.temps ++ [n] ++ spent) custody later ∧
      Held env.types [] (n :: (flags ++ (atRight.temps ++ testing.temps))) later
        (.direct Registry.bool (.temp n)) := by
  simp only [List.nodup_append', List.disjoint_append_left, List.disjoint_append_right]
    at nodup apart
  obtain ⟨⟨nodupRight, nodup, between⟩, _, new₁, new₂⟩ := nodup
  obtain ⟨⟨apart₁, apart₂⟩, apart₃⟩ := apart
  have right_tests : ∀ block, (Code.seq atRight testing).Runs (custody.leave block) fun later =>
      Confined (atRight.temps ++ testing.temps) (custody.leave block) later ∧
        Intact (flags ++ (atRight.temps ++ testing.temps)) later flag' := by
    intro block
    apply runs_seq
    apply (makes nodupRight _).mono
    rintro first ⟨confined, heldRight⟩
    apply (tests.runs heldRight.head between nodup).mono
    rintro later ⟨confined', intact, _⟩
    constructor
    · apply (confined.append confined').mono
      intro n mem
      grind
    · exact intact.mono (List.subset_append_right _ _)
  have left_flag : ∀ block, Code.skip.Runs (custody.leave block) fun later =>
      Confined (atRight.temps ++ testing.temps) (custody.leave block) later ∧
        Intact (flags ++ (atRight.temps ++ testing.temps)) later flag := by
    intro block
    apply runs_skip
    refine ⟨.refl _ _, ?_⟩
    exact (intact.confined (confined_leave [] custody block) (List.disjoint_nil_right _)).mono
      (List.subset_append_left _ _)
  have new : n ∉ flags ++ (atRight.temps ++ testing.temps) := by
    simp only [List.mem_append, not_or]
    exact ⟨apart', fun mem => new₁ mem (List.mem_singleton_self n),
      fun mem => new₂ mem (List.mem_singleton_self n)⟩
  apply runs_seq
  apply (runs_meet_operands ne.symm right_tests left_flag new).mono
  rintro met ⟨confined, merged⟩
  have held := held.confined confined (by
    simp only [List.disjoint_append_right]
    exact ⟨⟨apart₁, apart₂⟩, apart₃⟩)
  apply (releases.runs held.within).mono
  intro later confined'
  have others : (n :: (flags ++ (atRight.temps ++ testing.temps))).Disjoint (spent ∩ region) := by
    intro m mem mem'
    obtain ⟨used, inside⟩ := List.mem_inter_iff.mp mem'
    simp only [List.mem_cons, List.mem_append] at mem
    rcases mem with rfl | mem | mem | mem
    · exact apart₃ inside (List.mem_singleton_self m)
    · exact safe mem used
    · exact apart₁ inside mem
    · exact apart₂ inside mem
  constructor
  · apply (confined.append confined').mono
    intro m mem
    grind
  · exact held_truth plain (merged.confined confined' others)

/-- The left operand is the value where its flag decides, and is torn down where it does not. -/
theorem Decides.runs (plain : env.types.method Registry.bool teardown = none)
    {connective : Connective} {left right : Value} {flag : Operand} {atRight : Code}
    {flags : List Nat} (decides : Decides env connective left right flag atRight code v)
    (makes : atRight.temps.Nodup → atRight.Makes env.types [right])
    (held : Held env.types spent region custody left) (intact : Intact flags custody flag)
    (safe : flags.Disjoint spent)
    (apart : region.Disjoint code.temps) (apart' : flags.Disjoint code.temps)
    (nodup : code.temps.Nodup) :
    code.Runs custody fun later => Confined (spent ++ code.temps) custody later ∧
      Held env.types (spent ++ code.temps) (region ++ flags ++ code.temps) later v := by
  cases decides with
  | @alike placing rightAddress right' releasing placing' leftAddress left' rightEnd skip merging _
      rightStart join same places releases places' ne joins =>
      have perm := temps_meet_perm (connective = .and) flag rightStart skip rightEnd skip join
        (.seq atRight (.seq placing releasing)) placing' merging
      have temps : (Code.seq atRight (.seq placing releasing)).temps =
          atRight.temps ++ placing.temps := by simp [Code.temps, releases.temps]
      rw [temps] at perm
      have outside := List.disjoint_of_subset_right perm.symm.subset apart
      apply (runs_alike same makes places releases places' ne joins held outside
        (perm.nodup_iff.mp nodup)).mono
      rintro later ⟨confined, held⟩
      have inside := fun n => perm.symm.mem_iff (a := n)
      constructor
      · apply confined.mono
        intro n mem
        grind
      · apply held.mono
        · intro n mem
          grind
        · intro n mem
          grind
  | @flags testing flag' releasing rightEnd skip rightStart join n other tests releases ne =>
      have perm := temps_meet_perm (connective = .and) flag rightStart skip rightEnd skip join
        (.seq atRight testing) .skip (.instr .plain (.phi (.temp n) .i1 [(flag, skip), (flag', rightEnd)]))
      have temps : (Code.seq atRight testing).temps ++ Code.skip.temps ++ (Code.instr .plain
          (.phi (.temp n) .i1 [(flag, skip), (flag', rightEnd)])).temps =
          atRight.temps ++ testing.temps ++ [n] := by
        simp [Code.temps, Instr.number?, Instr.dest, Operand.temp?]
      rw [temps] at perm
      rw [Code.temps, releases.temps, List.append_nil] at nodup apart apart'
      have outside := List.disjoint_of_subset_right perm.symm.subset apart
      have new : n ∉ flags := fun mem => apart' mem (perm.symm.subset (by simp))
      apply (runs_flags plain makes tests releases ne held intact safe outside new
        (perm.nodup_iff.mp nodup)).mono
      rintro later ⟨confined, held⟩
      have inside := fun n => perm.symm.mem_iff (a := n)
      constructor
      · apply confined.mono
        intro m mem
        grind [Code.temps]
      · apply held.mono (List.nil_subset _)
        intro m mem
        grind [Code.temps]

theorem Connects.makes (plain : env.types.method Registry.bool teardown = none)
    {connective : Connective} {left right : Value} {atLeft atRight : Code}
    (connects : Connects env connective left right atLeft atRight code v)
    (makes : atLeft.temps.Nodup → atLeft.Makes env.types [left])
    (makes' : atRight.temps.Nodup → atRight.Makes env.types [right]) (nodup : code.temps.Nodup) :
    code.Makes env.types [v] := by
  intro custody
  cases connects with
  | @intro testing flag deciding _ tests decides =>
      simp only [Code.temps, List.nodup_append', List.disjoint_append_right] at nodup
      obtain ⟨nodupLeft, ⟨nodup₁, nodup₂, between⟩, apart₁, apart₂⟩ := nodup
      apply runs_seq
      apply (makes nodupLeft custody).mono
      rintro first ⟨confined₁, held⟩
      have held := held.head
      apply runs_seq
      apply (tests.runs held.borrowed apart₁ nodup₁).mono
      rintro second ⟨confined₂, intact, others⟩
      have held := held.confined (confined₂.mono (List.nil_append _ ▸ List.Subset.refl _)) apart₁
      -- The flag comes from the left operand only if that is a truth value, which nobody tears down.
      have decided : ∃ flags, Intact flags second flag ∧ flags ⊆ atLeft.temps ++ testing.temps ∧
          ∃ spent, spent ⊆ atLeft.temps ∧ flags.Disjoint spent ∧
            Held env.types spent atLeft.temps second left := by
        by_cases isBool : left.type = Registry.bool
        · refine ⟨_, intact, List.Subset.refl _, [], List.nil_subset _, List.disjoint_nil_right _, ?_⟩
          exact held.of_no_method (by rw [isBool, plain])
        · have other : left.borrowed.type ≠ Registry.bool := by
            unfold Value.borrowed
            split <;> exact isBool
          exact ⟨_, others other, List.subset_append_right _ _, atLeft.temps, List.Subset.refl _,
            List.disjoint_comm.mp apart₁, held⟩
      obtain ⟨flags, intact, flags_le, spent, spent_le, safe, held⟩ := decided
      have outside : flags.Disjoint deciding.temps := by
        intro n mem mem'
        rcases List.mem_append.mp (flags_le mem) with mem | mem
        · exact apart₂ mem mem'
        · exact between mem mem'
      apply (decides.runs plain makes' held intact safe apart₂ outside nodup₂).mono
      rintro later ⟨confined₃, held⟩
      apply made ((confined₁.append confined₂).append confined₃) held
      all_goals
        intro n mem
        have := @spent_le n
        have := @flags_le n
        grind [Code.temps]

theorem runs_placed {placing : Code} {address : Operand} (makes : code.Makes types [v])
    (places : Places types v placing address w) (block : BlockId)
    (between : code.temps.Disjoint placing.temps) :
    (seq code placing).Runs custody fun later =>
      Confined (code.temps ++ placing.temps) custody later ∧
        Comes types code.temps (code.temps ++ placing.temps) v.type (address, v.binding, block)
          (later.leave block) := by
  apply runs_seq
  apply (makes custody).mono
  rintro first ⟨confined, held⟩
  apply (places.comes block held.head between).mono
  rintro later ⟨confined', comes⟩
  exact ⟨confined.append confined', comes⟩

theorem Chooses.makes {test onTrue onFalse : Value} {atTest atTrue atFalse : Code}
    (chooses : Chooses env test onTrue onFalse atTest atTrue atFalse code v)
    (makes : atTest.temps.Nodup → atTest.Makes env.types [test])
    (makesTrue : atTrue.temps.Nodup → atTrue.Makes env.types [onTrue])
    (makesFalse : atFalse.temps.Nodup → atFalse.Makes env.types [onFalse])
    (nodup : code.temps.Nodup) :
    code.Makes env.types [v] := by
  intro custody
  cases chooses with
  | @intro testing flag placing trueAddress onTrue' placing' falseAddress onFalse' trueEnd falseEnd
      merging _ trueStart falseStart fin same tests places places' ne joins =>
      have perm := temps_meet_perm true flag trueStart falseStart trueEnd falseEnd fin
        (.seq atTrue placing) (.seq atFalse placing') merging
      have subset := perm.symm.subset
      obtain ⟨nodup₁, nodup₂, _⟩ := List.nodup_append'.mp nodup
      replace nodup₂ := perm.nodup_iff.mp nodup₂
      simp only [Code.temps, List.nodup_append', List.disjoint_append_left] at nodup₁ nodup₂
      obtain ⟨nodupTest, nodup₁, between⟩ := nodup₁
      obtain ⟨⟨⟨nodupTrue, _, between₁⟩, ⟨nodupFalse, _, between₂⟩, _⟩, nodup₂, outside⟩ := nodup₂
      have true_comes : ∀ custody, (Code.seq atTrue placing).Runs custody fun later =>
          Confined (atTrue.temps ++ placing.temps ++ (atFalse.temps ++ placing'.temps)) custody later ∧
          Comes env.types (atTrue.temps ++ atFalse.temps)
            (atTrue.temps ++ placing.temps ++ (atFalse.temps ++ placing'.temps)) onTrue.type
            (trueAddress, onTrue.binding, trueEnd) (later.leave trueEnd) := by
        intro custody
        apply (runs_placed (makesTrue nodupTrue) places trueEnd between₁).mono
        rintro later ⟨confined, comes⟩
        exact ⟨confined.mono (List.subset_append_left _ _),
          comes.mono (List.subset_append_left _ _) (List.subset_append_left _ _)⟩
      have false_comes : ∀ custody, (Code.seq atFalse placing').Runs custody fun later =>
          Confined (atTrue.temps ++ placing.temps ++ (atFalse.temps ++ placing'.temps)) custody later ∧
          Comes env.types (atTrue.temps ++ atFalse.temps)
            (atTrue.temps ++ placing.temps ++ (atFalse.temps ++ placing'.temps)) onTrue.type
            (falseAddress, onFalse.binding, falseEnd) (later.leave falseEnd) := by
        intro custody
        apply (runs_placed (makesFalse nodupFalse) places' falseEnd between₂).mono
        rintro later ⟨confined, comes⟩
        rw [same] at comes
        exact ⟨confined.mono (List.subset_append_right _ _),
          comes.mono (List.subset_append_right _ _) (List.subset_append_right _ _)⟩
      apply runs_seq
      apply runs_seq
      apply (makes nodupTest custody).mono
      rintro first ⟨confined₁, held⟩
      apply (tests.runs held.head between nodup₁).mono
      rintro second ⟨confined₂, _, _⟩
      have apart : (atTrue.temps ++ placing.temps ++ (atFalse.temps ++ placing'.temps)).Disjoint
          merging.temps := by
        simp only [List.disjoint_append_left]
        exact outside
      apply (runs_meet joins ne (.inl rfl) (.inr rfl) (fun block => true_comes _)
        (fun block => false_comes _) apart nodup₂).mono
      rintro later ⟨confined₃, held⟩
      apply made ((confined₁.append confined₂).append confined₃) held
      all_goals
        intro n mem
        have := @subset n
        grind [Code.temps]

/-! ## Expressions -/

theorem flag_of_not_owns {binding : Binding} (other : binding.owns = false) :
    binding.flag = .bool false := by
  cases binding with
  | stable | constant => rfl
  | temporary | conditional => cases other

theorem held_outer (other : v.binding.owns = false)
    (constant : ∀ operand ∈ v.storage.operands, operand.temp? = none) :
    Held types spent region custody v where
  storage := fun operand mem => intact_of_constant (constant operand mem)
  flag := by
    rw [flag_of_not_owns other]
    exact intact_of_constant rfl
  decided := by
    rw [flag_of_not_owns other]
    exact ⟨false, rfl⟩
  owned := by
    intro _ owned
    rw [flag_of_not_owns other] at owned
    cases owned

/-- The code of an expression changes only its own registers and makes its values. -/
theorem Evaluates.makes (plain : env.types.method Registry.bool teardown = none) {names : Names}
    (outer : names.Outer) {phrase : Phrase} {vs : List Value}
    (evaluates : Evaluates env names phrase vs code) (nodup : code.temps.Nodup) :
    code.Makes env.types vs := by
  induction evaluates with
  | literal _ =>
      intro custody
      apply runs_skip
      exact ⟨.refl _ _, .single (held_outer rfl (by simp [Value.constant, Storage.operands, Operand.temp?]))⟩
  | name found =>
      obtain ⟨other, constant⟩ := outer _ _ found
      intro custody
      apply runs_read
      exact ⟨.refl _ _, .single (held_outer other constant)⟩
  | binary _ _ operates ih₁ ih₂ =>
      simp only [Code.temps, List.nodup_append', List.disjoint_append_right] at nodup
      obtain ⟨nodup₁, ⟨nodup₂, nodup₃, between⟩, apart, apart'⟩ := nodup
      intro custody
      apply runs_seq
      apply (ih₁ nodup₁ custody).mono
      rintro first ⟨confined₁, held⟩
      apply runs_seq
      apply (ih₂ nodup₂ first).mono
      rintro second ⟨confined₂, held'⟩
      have held := HeldAll.cons (held.head.confined confined₂ apart) held' apart
      apply (operates.runs plain held (List.disjoint_append_left.mpr ⟨apart', between⟩) nodup₃).mono
      rintro later ⟨confined₃, held⟩
      apply made ((confined₁.append confined₂).append confined₃) held
      all_goals
        intro n mem
        grind [Code.temps]
  | not _ coerces negates ih =>
      simp only [Code.temps, List.nodup_append', List.disjoint_append_right] at nodup
      obtain ⟨nodup₁, ⟨nodup₂, nodup₃, between⟩, apart, apart'⟩ := nodup
      intro custody
      apply runs_seq
      apply (ih nodup₁ custody).mono
      rintro first ⟨confined₁, held⟩
      apply runs_seq
      apply (coerces.runs held.head apart nodup₂).mono
      rintro second ⟨confined₂, held, _⟩
      apply (negates.runs plain held (List.disjoint_append_left.mpr ⟨apart', between⟩)).mono
      rintro later ⟨confined₃, held⟩
      apply made ((confined₁.append confined₂).append confined₃) held
      all_goals
        intro n mem
        grind [Code.temps]
  | and _ _ connects ih₁ ih₂ => exact connects.makes plain ih₁ ih₂ nodup
  | or _ _ connects ih₁ ih₂ => exact connects.makes plain ih₁ ih₂ nodup
  | ternary _ _ _ chooses ih₁ ih₂ ih₃ => exact chooses.makes ih₁ ih₂ ih₃ nodup
  | index _ _ indexes ih₁ ih₂ => exact indexes.makes ih₁ ih₂ nodup
  | @call callee args target vs atArgs calling result _ _ dispatches ih =>
      obtain ⟨nodup₁, nodup₂, apart⟩ := List.nodup_append'.mp nodup
      intro custody
      apply runs_seq
      apply (ih nodup₁ custody).mono
      rintro first ⟨confined, held⟩
      apply (dispatches.runs held apart nodup₂).mono
      rintro later ⟨confined', held⟩
      constructor
      · apply (confined.append confined').mono
        intro n mem
        grind [Code.temps]
      · cases result with
        | none => trivial
        | some v =>
            apply HeldAll.single
            exact (held v rfl).mono (List.subset_append_right _ _) (List.subset_append_right _ _)
  | nil =>
      intro custody
      apply runs_skip
      exact ⟨.refl _ _, trivial⟩
  | cons _ _ ih₁ ih₂ =>
      obtain ⟨nodup₁, nodup₂, apart⟩ := List.nodup_append'.mp nodup
      intro custody
      apply runs_seq
      apply (ih₁ nodup₁ custody).mono
      rintro first ⟨confined, held⟩
      apply (ih₂ nodup₂ first).mono
      rintro later ⟨confined', held'⟩
      exact ⟨confined.append confined', HeldAll.cons (held.head.confined confined' apart) held' apart⟩

end Translation

end LlvmBackend
