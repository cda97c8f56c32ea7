import LlvmBackend.Proofs.Translation.Custody.Expr

/-! # Statements keep track of slots

The code of statements changes nothing but its own registers, however control goes through it. What
a loop goes through stays held from turn to turn.
-/

namespace LlvmBackend

open Ir Custody
open Lowering (teardown)

theorem Names.Outer.define {names : Names} (outer : names.Outer) {name : String} {type : TypeId}
    {slot : Operand} (constant : slot.temp? = none) : (names.define name (.stable type slot)).Outer := by
  intro asked v found
  rw [Names.define, Scopes.lookup_define] at found
  split at found
  · cases found
    exact ⟨rfl, by simpa [Value.stable, Storage.operands] using constant⟩
  · exact outer asked v found

namespace Code

/-- Wherever code is carried out, what changes is in a region. -/
def Confines (region : List Nat) (code : Code) : Prop :=
  ∀ custody, code.Runs custody (Confined region custody)

variable {region more : List Nat} {code first second : Code}

theorem Confines.mono (h : code.Confines region) (sub : region ⊆ more) : code.Confines more :=
  fun custody => (h custody).mono fun _ confined => confined.mono sub

theorem Confines.seq (h₁ : first.Confines region) (h₂ : second.Confines region) :
    (Code.seq first second).Confines region := by
  intro custody
  apply runs_seq
  apply (h₁ custody).mono
  intro later confined
  exact (h₂ later).mono fun _ => confined.trans

theorem confines_jump {source target : BlockId} : (jump source target).Confines region :=
  fun _ => runs_jump (confined_leave _ _ _)

theorem Confines.leading {ended : Bool} {source fin : BlockId} (h : code.Confines region) :
    (code.leading ended source fin).Confines region := by
  cases ended with
  | true => exact h
  | false => exact h.seq confines_jump

theorem Confines.leave (h : code.Confines region) (custody : Custody) (block : BlockId) :
    code.Runs (custody.leave block) (Confined region custody) :=
  (h _).mono fun _ => (confined_leave region custody block).trans

theorem Confines.fork {role : Role} {flag : Operand} {onTrue onFalse : BlockId}
    (h₁ : first.Confines region) (h₂ : second.Confines region) :
    (Code.fork role flag onTrue onFalse first second).Confines region :=
  fun custody => runs_fork (fun _ => h₁.leave custody) fun _ => h₂.leave custody

theorem Confines.loop {body fin : BlockId} {flag : Operand} (h₁ : first.Confines region)
    (h₂ : second.Confines region) : (Code.loop body fin first flag second).Confines region := by
  intro custody
  apply @runs_loop _ _ (Confined region custody) _ _ _ _ _ (Confined region custody)
  · exact .refl _ _
  · exact fun _ confined => (h₁ _).mono fun _ => confined.trans
  · exact fun _ block confined => (h₂.leave _ block).mono fun _ => confined.trans
  · exact fun _ block confined => confined.trans (confined_leave _ _ block)

end Code

namespace Translation

open Code

variable {env : Surroundings} {names names' : Names} {custody : Custody} {code : Code}

theorem SlotFor.outer {types : Registry} {name : String} {type : TypeId} {slot : Operand}
    (slotFor : SlotFor types names name type slot code names') (outer : names.Outer) :
    slot.temp? = none ∧ names'.Outer := by
  cases slotFor with
  | reused found =>
      simp only [Names.reusable?, Option.bind_eq_bind, Option.bind_eq_some_iff] at found
      obtain ⟨known, there, address, eq, found⟩ := found
      have same : address = slot := by
        by_cases fits : known.type = type ∧ address ∈ names.slots
        · simpa [guard, fits] using found
        · simp [guard, fits] at found
      have constant := (outer name known (Scopes.lookup_of_lookupLocal there)).2
      exact ⟨same ▸ constant address (Value.mem_operands eq), outer⟩
  | new => exact ⟨rfl, outer⟩

theorem SlotFor.temps {types : Registry} {name : String} {type : TypeId} {slot : Operand}
    (slotFor : SlotFor types names name type slot code names') : code.temps = [] := by
  cases slotFor <;> rfl

theorem SlotFor.runs {types : Registry} {name : String} {type : TypeId} {slot : Operand}
    {post : Custody → Prop} (slotFor : SlotFor types names name type slot code names')
    (h : post custody) : code.Runs custody post := by
  cases slotFor with
  | reused => exact runs_skip h
  | new => exact runs_slot h

section

variable (plain : env.types.method Registry.bool teardown = none)
include plain

theorem Leaves.runs {value : Option Expr} (leaves : Leaves env names value code)
    (outer : names.Outer) (nodup : code.temps.Nodup) : code.Confines code.temps := by
  intro custody
  cases leaves with
  | bare => exact runs_ret
  | dropped _ evaluates =>
      obtain ⟨nodup₁, _, _⟩ := List.nodup_append'.mp nodup
      apply runs_seq
      apply (evaluates.makes plain outer nodup₁ custody).mono
      intro later _
      exact runs_ret
  | result _ _ evaluates loads =>
      simp only [Code.temps, List.nodup_append', List.disjoint_append_right] at nodup
      obtain ⟨nodup₁, _, apart, _⟩ := nodup
      apply runs_seq
      apply (evaluates.makes plain outer nodup₁ custody).mono
      rintro first ⟨_, held⟩
      apply runs_seq
      apply (loads.runs held.head apart).mono
      rintro second ⟨_, intact, _⟩
      apply runs_seq
      apply runs_store (by simp) intact (intact_of_constant rfl)
      intro third _
      exact runs_ret

/-- What a statement assigns is moved out of its slot. -/
theorem confines_assign {e : Expr} {v v' : Value} {evaluating loading slotting : Code} {target : String}
    {operand slot : Operand} (outer : names.Outer)
    (evaluates : Evaluates env names (.expr e) [v] evaluating)
    (loads : Loads env.types v loading operand v')
    (slotFor : SlotFor env.types names target v.type slot slotting names')
    (nodup : (evaluating.temps ++ loading.temps).Nodup) :
    (Code.seq evaluating (.seq loading (.seq slotting (.instr (.write target v.type)
      (.store ⟨⟨env.types.ir v.type⟩, operand⟩ slot))))).Confines
        (evaluating.temps ++ loading.temps) := by
  intro custody
  obtain ⟨nodup₁, _, apart⟩ := List.nodup_append'.mp nodup
  obtain ⟨constant, _⟩ := slotFor.outer outer
  apply runs_seq
  apply (evaluates.makes plain outer nodup₁ custody).mono
  rintro first ⟨confined₁, held⟩
  apply runs_seq
  apply (loads.runs held.head apart).mono
  rintro second ⟨confined₂, intact, _⟩
  apply runs_seq
  apply slotFor.runs
  apply runs_store (by simp) intact (intact_of_constant constant)
  intro later confined₃
  exact (confined₁.append confined₂).trans confined₃

/-- A condition is evaluated to the flag of a branch. -/
theorem confines_condition {test : Expr} {v : Value} {atTest testing : Code} {flag : Operand}
    (outer : names.Outer) (evaluates : Evaluates env names (.expr test) [v] atTest)
    (tests : Tests env v testing flag) (nodup : (atTest.temps ++ testing.temps).Nodup) :
    (Code.seq atTest testing).Confines (atTest.temps ++ testing.temps) := by
  intro custody
  obtain ⟨nodup₁, nodup₂, apart⟩ := List.nodup_append'.mp nodup
  apply runs_seq
  apply (evaluates.makes plain outer nodup₁ custody).mono
  rintro first ⟨confined, held⟩
  apply (tests.runs held.head apart nodup₂).mono
  rintro later ⟨confined', _, _⟩
  apply (confined.append confined').mono
  intro n mem
  grind

/-- What a loop goes through is held at each turn and torn down behind the loop. -/
theorem confines_forLoop {source : Expr} {v v' : Value} {atSource placing slotting turn releasing : Code}
    {iterator slot : Operand} {target callee : String} {element : TypeId} {pointer pointer' : IrType}
    {head body fin source' turnEnd : BlockId} {n : Nat} {ended : Bool} (outer : names.Outer)
    (evaluates : Evaluates env names (.expr source) [v] atSource)
    (places : Places env.types v placing iterator v')
    (slotFor : SlotFor env.types names target element slot slotting names')
    (turns : turn.Confines turn.temps)
    (releases : Releases env.types v' releasing)
    (nodup : (atSource.temps ++ placing.temps ++ (n :: turn.temps)).Nodup) :
    (Code.seq atSource (.seq placing (.seq slotting (.seq
      (.seq (.jump source' head) (.loop body fin
        (.instr (.write target element) (.call (some (.temp n)) .i1 callee
          [⟨pointer, iterator⟩, ⟨pointer', slot⟩]))
        (.temp n) (turn.leading ended turnEnd head))) releasing)))).Confines
      (atSource.temps ++ placing.temps ++ (n :: turn.temps)) := by
  intro custody
  obtain ⟨nodup, _, outside⟩ := List.nodup_append'.mp nodup
  obtain ⟨nodup₁, _, apart⟩ := List.nodup_append'.mp nodup
  obtain ⟨constant, _⟩ := slotFor.outer outer
  apply runs_seq
  apply (evaluates.makes plain outer nodup₁ custody).mono
  rintro first ⟨confined₁, held⟩
  apply runs_seq
  apply (places.runs held.head apart).mono
  rintro second ⟨confined₂, intact, held⟩
  apply runs_seq
  apply slotFor.runs
  -- At each test of the loop the iterator is as it was before the loop.
  have unchanged : ∀ {later}, Confined (n :: turn.temps) second later →
      Intact (atSource.temps ++ placing.temps) later iterator := fun h => intact.confined h outside
  apply runs_seq
  apply runs_seq
  apply runs_jump
  have looping : (Code.loop body fin
      (.instr (.write target element) (.call (some (.temp n)) .i1 callee
        [⟨pointer, iterator⟩, ⟨pointer', slot⟩]))
      (.temp n) (turn.leading ended turnEnd head)).Runs (second.leave source')
      (Confined (n :: turn.temps) second) := by
    apply @runs_loop _ _ (Confined (n :: turn.temps) second) _ _ _ _ _
      (Confined (n :: turn.temps) second)
    · exact confined_leave _ _ _
    · intro custody confined
      apply runs_next (by simp)
      · intro arg mem
        simp only [List.mem_cons, List.not_mem_nil, or_false] at mem
        rcases mem with rfl | rfl
        · exact unchanged confined
        · exact intact_of_constant constant
      · intro later defines
        exact confined.trans (defines.confined.mono (by simp))
    · intro custody block confined
      have turns : (turn.leading ended turnEnd head).Confines (n :: turn.temps) :=
        turns.leading.mono (List.subset_cons_self _ _)
      exact (turns.leave custody block).mono fun _ => confined.trans
    · intro custody block confined
      exact confined.trans (confined_leave _ _ _)
  apply looping.mono
  intro third confined₃
  apply (releases.runs (held.confined confined₃ outside)).mono
  intro later confined₄
  apply (((confined₁.append confined₂).append confined₃).append confined₄).mono
  intro m mem
  grind

/-- The code of statements changes only its own registers. -/
theorem Lowers.confines {work : Work} {ended : Bool}
    (lowers : Lowers env work names names' ended code) (outer : names.Outer)
    (nodup : code.temps.Nodup) : names'.Outer ∧ code.Confines code.temps := by
  induction lowers with
  | assign evaluates loads slotFor =>
      obtain ⟨constant, outer'⟩ := slotFor.outer outer
      simp only [Code.temps, slotFor.temps, Instr.number?, Instr.dest, Option.bind_none,
        Option.toList_none, List.append_nil] at nodup ⊢
      exact ⟨outer'.define constant, confines_assign plain outer evaluates loads slotFor nodup⟩
  | noArms => exact ⟨outer, Confines.seq (fun _ => runs_skip (.refl _ _)) confines_jump⟩
  | ifChain _ ih => exact ih outer nodup
  | whileLoop evaluates tests _ ih =>
      simp only [Code.temps, temps_leading, List.nil_append] at nodup ⊢
      obtain ⟨nodup₁, nodup₂, _⟩ := List.nodup_append'.mp nodup
      obtain ⟨outer', turns⟩ := ih outer nodup₂
      have test := confines_condition plain outer evaluates tests nodup₁
      refine ⟨outer', confines_jump.seq (Confines.loop ?_ ?_)⟩
      · exact test.mono (List.subset_append_left _ _)
      · exact turns.leading.mono (List.subset_append_right _ _)
  | forLoop evaluates _ _ places slotFor _ _ releases ih =>
      obtain ⟨constant, outer'⟩ := slotFor.outer outer
      simp only [Code.temps, slotFor.temps, releases.temps, temps_leading, Instr.number?, Instr.dest,
        Operand.temp?, Option.bind_some, Option.toList_some, List.nil_append, List.append_nil,
        List.singleton_append, ← List.append_assoc] at nodup ⊢
      obtain ⟨_, within, _⟩ := List.nodup_append'.mp nodup
      obtain ⟨outer'', turns⟩ := ih (outer'.define constant) (List.nodup_cons.mp within).2
      exact ⟨outer'', confines_forLoop plain outer evaluates places slotFor turns releases nodup⟩
  | ret leaves => exact ⟨outer, leaves.runs plain outer nodup⟩
  | effect evaluates =>
      refine ⟨outer, fun custody => ?_⟩
      exact (evaluates.makes plain outer nodup custody).mono fun _ h => h.1
  | nil => exact ⟨outer, fun custody => runs_skip (.refl _ _)⟩
  | ends _ ih => exact ih outer nodup
  | goesOn _ _ ih₁ ih₂ =>
      obtain ⟨nodup₁, nodup₂, _⟩ := List.nodup_append'.mp nodup
      obtain ⟨outer₁, first⟩ := ih₁ outer nodup₁
      obtain ⟨outer₂, second⟩ := ih₂ outer₁ nodup₂
      exact ⟨outer₂, (first.mono (List.subset_append_left _ _)).seq
        (second.mono (List.subset_append_right _ _))⟩
  | otherwise _ ih =>
      rw [temps_leading] at nodup ⊢
      obtain ⟨outer', confines⟩ := ih outer nodup
      exact ⟨outer', confines.leading⟩
  | lastArm evaluates tests _ ih =>
      simp only [Code.temps, temps_leading, List.append_nil] at nodup ⊢
      obtain ⟨nodup₁, nodup₂, _⟩ := List.nodup_append'.mp nodup
      obtain ⟨outer', body⟩ := ih outer nodup₂
      have test := confines_condition plain outer evaluates tests nodup₁
      refine ⟨outer', (test.mono (List.subset_append_left _ _)).seq (Confines.fork ?_ ?_)⟩
      · exact body.leading.mono (List.subset_append_right _ _)
      · exact fun _ => runs_skip (.refl _ _)
  | arm evaluates tests _ _ ih₁ ih₂ =>
      simp only [Code.temps, temps_leading] at nodup ⊢
      obtain ⟨nodup₁, nodup₂, _⟩ := List.nodup_append'.mp nodup
      obtain ⟨nodup₂, nodup₃, _⟩ := List.nodup_append'.mp nodup₂
      obtain ⟨outer₁, body⟩ := ih₁ outer nodup₂
      obtain ⟨outer₂, rest⟩ := ih₂ outer₁ nodup₃
      have test := confines_condition plain outer evaluates tests nodup₁
      refine ⟨outer₂, (test.mono (List.subset_append_left _ _)).seq (Confines.fork ?_ ?_)⟩
      · apply body.leading.mono
        intro n mem
        grind
      · apply rest.mono
        intro n mem
        grind

end

end Translation

end LlvmBackend
