import LlvmBackend.Proofs.Supply
import LlvmBackend.Proofs.Translation.Parts
import LlvmBackend.Proofs.Translation.Traces

/-! # The storage of variables

If a body binds each name to values of one type, a name has one slot there, which no other name has
and which nothing used before the body. A look-up gives this slot if the text before it in the body
binds the name, and what the name stood for before the body otherwise.
-/

namespace LlvmBackend

open Ir

namespace Names

variable {start names later last : Names} {typeOf : String → TypeId}

/-- What a body bound stays bound to the same values. -/
def Le (names later : Names) : Prop :=
  ∀ name value, names.scopes.lookupLocal name = some value →
    later.scopes.lookupLocal name = some value

theorem Le.refl (names : Names) : names.Le names := fun _ _ found => found

theorem Le.trans (h₁ : names.Le later) (h₂ : later.Le last) : names.Le last :=
  fun name value found => h₂ name value (h₁ name value found)

/-- Each name that a body bound has a slot of its own. -/
structure Settled (names start : Names) (typeOf : String → TypeId) : Prop where
  outer : ∀ name, names.scopes.lookupLocal name = none →
    names.scopes.lookup name = start.scopes.lookup name
  bound : ∀ name value, names.scopes.lookupLocal name = some value →
    ∃ storage, value = .stable (typeOf name) (.named storage) ∧ .named storage ∈ names.slots
  apart : ∀ name value other value', names.scopes.lookupLocal name = some value →
    names.scopes.lookupLocal other = some value' → value.address = value'.address → name = other
  taken : ∀ storage, .named storage ∈ names.slots → storage ∈ names.used ∧ storage ∉ start.used
  used : start.used ⊆ names.used

/-- What code does with variables, by what names stand for behind it. -/
def Resolves (start later : Names) : Part → Prop
  | .instr (.write name _) i => ∃ value slot, later.scopes.lookupLocal name = some value ∧
      value.address = some slot ∧ i.gives? = some slot
  | .instr .plain i => ∀ slot ∈ i.gives?, ∃ n, slot = .temp n
  | .instr .release i => i.gives? = none
  | .read name rebound value =>
      if rebound then later.scopes.lookupLocal name = some value
      else start.scopes.lookup name = some value
  | .instr .result _ | .slot _ _ | .ends _ => True

theorem Settled.reusable (settled : names.Settled start typeOf) {name : String} {value : Value}
    (found : names.scopes.lookupLocal name = some value) :
    ∃ slot, names.reusable? name (typeOf name) = some slot := by
  obtain ⟨storage, rfl, mem⟩ := settled.bound name value found
  exact ⟨.named storage, by simp [reusable?, found, mem, guard, Value.stable, Value.address, Storage.address]⟩

theorem Settled.read (settled : names.Settled start typeOf) (le : names.Le later) {name : String}
    {value : Value} (found : names.scopes.lookup name = some value) :
    Resolves start later (.read name (names.scopes.lookupLocal name).isSome value) := by
  cases here : names.scopes.lookupLocal name with
  | none => exact (settled.outer name here).symm.trans found
  | some known =>
      rw [Scopes.lookup_of_lookupLocal here] at found
      cases found
      exact le name value here

end Names

namespace Translation

open Names

variable {env : Surroundings} {start names names' later : Names} {typeOf : String → TypeId}

theorem admits_resolves : Admits env (Resolves start later) where
  ends := fun _ => trivial
  plain := fun _ _ temps => temps
  call := fun _ _ _ _ _ _ _ => by simp [Resolves, Instr.gives?]
  release := fun _ _ _ _ => rfl

/-- Giving a name a slot keeps each name to its own slot. -/
theorem SlotFor.settled {types : Registry} {name : String} {slot : Operand} {code : Code}
    (slotFor : SlotFor types names name (typeOf name) slot code names')
    (settled : names.Settled start typeOf) :
    (names'.define name (.stable (typeOf name) slot)).Settled start typeOf ∧
      names.Le (names'.define name (.stable (typeOf name) slot)) := by
  cases slotFor with
  | reused found =>
      have found := found
      simp only [reusable?, Option.bind_eq_bind, Option.bind_eq_some_iff] at found
      obtain ⟨known, there, slot', address, found⟩ := found
      have eq : slot' = slot := by
        by_cases fits : known.type = typeOf name ∧ slot' ∈ names.slots
        · simpa [guard, fits] using found
        · simp [guard, fits] at found
      subst eq
      obtain ⟨storage, rfl, _⟩ := settled.bound name known there
      cases address
      -- The name is bound to what it stood for already.
      have same : ∀ asked, (names.define name (.stable (typeOf name) (.named storage))).scopes.lookupLocal
          asked = names.scopes.lookupLocal asked := by
        intro asked
        rw [define, Scopes.lookupLocal_define]
        split
        · next eq => rw [eq, there]
        · rfl
      have same' : ∀ asked, (names.define name (.stable (typeOf name) (.named storage))).scopes.lookup
          asked = names.scopes.lookup asked := by
        intro asked
        rw [define, Scopes.lookup_define]
        split
        · next eq => rw [eq, Scopes.lookup_of_lookupLocal there]
        · rfl
      refine ⟨⟨?_, ?_, ?_, settled.taken, settled.used⟩, ?_⟩
      · intro asked free
        rw [same'] at *
        exact settled.outer asked (same asked ▸ free)
      · intro asked value found
        exact settled.bound asked value (same asked ▸ found)
      · intro asked value other value' found found'
        exact settled.apart asked value other value' (same asked ▸ found) (same other ▸ found')
      · intro asked value found
        exact (same asked).trans found
  | new free notVoid =>
      have unbound : names.scopes.lookupLocal name = none := by
        cases there : names.scopes.lookupLocal name with
        | none => rfl
        | some value =>
            obtain ⟨slot, reused⟩ := settled.reusable there
            rw [free] at reused
            cases reused
      have fresh : names.freeName name ∉ names.used := Supply.freeName_not_mem _ _
      have lookups : ∀ asked, ((names.slotted (names.freeName name)).define name
          (.stable (typeOf name) (.named (names.freeName name)))).scopes.lookupLocal asked =
          if asked = name then some (.stable (typeOf name) (.named (names.freeName name)))
          else names.scopes.lookupLocal asked := fun asked => Scopes.lookupLocal_define _ _ _
      -- The slots so far have other names.
      have other : ∀ asked value, names.scopes.lookupLocal asked = some value →
          value.address ≠ some (.named (names.freeName name)) := by
        intro asked value found eq
        obtain ⟨storage, rfl, mem⟩ := settled.bound asked value found
        cases eq
        exact fresh (settled.taken _ mem).1
      refine ⟨⟨?_, ?_, ?_, ?_, ?_⟩, ?_⟩
      · intro asked free
        rw [lookups] at free
        split at free
        · cases free
        · next ne =>
            rw [define, Scopes.lookup_define, if_neg ne]
            exact settled.outer asked free
      · intro asked value found
        rw [lookups] at found
        split at found
        · next eq =>
            cases found
            exact ⟨_, by rw [eq], List.mem_cons_self⟩
        · obtain ⟨storage, eq, mem⟩ := settled.bound asked value found
          exact ⟨storage, eq, List.mem_cons_of_mem _ mem⟩
      · intro asked value asked' value' found found' same
        rw [lookups] at found found'
        split at found
        · cases found
          split at found'
          · next eq eq' => rw [eq, eq']
          · exact absurd same.symm (other _ _ found')
        · split at found'
          · cases found'
            exact absurd same (other _ _ found)
          · exact settled.apart asked value asked' value' found found' same
      · intro storage mem
        rcases List.mem_cons.mp mem with eq | mem
        · cases eq
          exact ⟨List.mem_cons_self, fun old => fresh (settled.used old)⟩
        · obtain ⟨taken, new⟩ := settled.taken storage mem
          exact ⟨List.mem_cons_of_mem _ taken, new⟩
      · exact List.subset_cons_of_subset _ settled.used
      · intro asked value found
        rw [lookups]
        split
        · next eq =>
            rw [eq, unbound] at found
            cases found
        · exact found

theorem Leaves.resolves {value : Option Expr} {code : Code} (leaves : Leaves env names value code)
    (settled : names.Settled start typeOf) (le : names.Le later) :
    code.All (Resolves start later) := by
  cases leaves with
  | bare => exact Code.all_ret.mpr trivial
  | dropped _ evaluates =>
      exact Code.all_seq.mpr ⟨evaluates.all admits_resolves fun _ _ => settled.read le,
        Code.all_ret.mpr trivial⟩
  | result _ _ evaluates loads =>
      simp only [Code.all_seq, Code.all_instr, Code.all_ret]
      exact ⟨evaluates.all admits_resolves fun _ _ => settled.read le, loads.all admits_resolves,
        trivial, trivial⟩

/-- A name that was given a slot stands for it. -/
theorem resolves_write {name : String} {type : TypeId} {slot : Operand} {i : Instr}
    (gives : i.gives? = some slot) (le : (names.define name (.stable type slot)).Le later) :
    Resolves start later (.instr (.write name type) i) := by
  refine ⟨.stable type slot, slot, le name _ ?_, rfl, gives⟩
  rw [define, Scopes.lookupLocal_define, if_pos rfl]

/-- If names are bound to values of one type each, code gives each name its own slot a value and
    looks it up there. -/
theorem Lowers.resolves {work : Work} {ended : Bool} {code : Code}
    (lowers : Lowers env work names names' ended code) (settled : names.Settled start typeOf)
    (typed : ∀ binding ∈ work.bindings env names.typing, binding.2 = typeOf binding.1) :
    names'.Settled start typeOf ∧ names.Le names' ∧
      ∀ later, names'.Le later → code.All (Resolves start later) := by
  have ends : ∀ {later : Names} {terminator : Terminator},
      Resolves start later (.ends terminator) := trivial
  induction lowers with
  | assign evaluates loads slotFor =>
      have type := typed _ (List.mem_singleton_self _)
      simp only [hasTypes_expr.mp evaluates.hasTypes] at type
      rw [type] at slotFor ⊢
      obtain ⟨settled', le⟩ := slotFor.settled settled
      refine ⟨settled', le, fun later le' => ?_⟩
      simp only [Code.all_seq, Code.all_instr]
      exact ⟨evaluates.all admits_resolves fun _ _ => settled.read (le.trans le'),
        loads.all admits_resolves, slotFor.all fun _ => trivial, resolves_write rfl le'⟩
  | noArms =>
      exact ⟨settled, .refl _, fun later _ =>
        Code.all_seq.mpr ⟨Code.all_skip, Code.all_jump.mpr ends⟩⟩
  | ifChain _ ih => exact ih settled typed
  | whileLoop evaluates tests _ ih =>
      obtain ⟨settled', le, resolves⟩ := ih settled typed
      refine ⟨settled', le, fun later le' => ?_⟩
      simp only [Code.all_seq, Code.all_jump, Code.all_loop, Code.all_leading ends]
      exact ⟨ends, ends, ⟨evaluates.all admits_resolves fun _ _ => settled.read (le.trans le'),
        tests.all admits_resolves⟩, resolves later le'⟩
  | forLoop evaluates found resolved places slotFor _ _ releases ih =>
      obtain ⟨type, typed⟩ := List.forall_mem_cons.mp typed
      simp only [hasTypes_expr.mp evaluates.hasTypes, elementOf_eq found resolved] at type typed
      have typing := slotFor.traces.2
      rw [type] at slotFor ih ⊢
      obtain ⟨settled', le⟩ := slotFor.settled settled
      obtain ⟨settled'', le', resolves⟩ := ih settled' (by
        rw [Names.typing_define, typing, Value.stable, ← type]
        exact typed)
      refine ⟨settled'', le.trans le', fun later le'' => ?_⟩
      simp only [Code.all_seq, Code.all_jump, Code.all_loop, Code.all_instr, Code.all_leading ends]
      exact ⟨evaluates.all admits_resolves fun _ _ => settled.read ((le.trans le').trans le''),
        places.all admits_resolves, slotFor.all fun _ => trivial,
        ⟨ends, ends, resolves_write rfl (le'.trans le''), resolves later le''⟩,
        releases.all admits_resolves⟩
  | ret leaves => exact ⟨settled, .refl _, fun later le => leaves.resolves settled le⟩
  | effect evaluates =>
      exact ⟨settled, .refl _, fun later le =>
        evaluates.all admits_resolves fun _ _ => settled.read le⟩
  | nil => exact ⟨settled, .refl _, fun _ _ => Code.all_skip⟩
  | ends _ ih => exact ih settled fun binding mem => typed binding (List.mem_append_left _ mem)
  | goesOn first _ ih₁ ih₂ =>
      rw [Work.bindings, Reference.suiteBindings, ← first.isReturn, if_neg (by simp)] at typed
      obtain ⟨typed₁, typed₂⟩ := List.forall_mem_append.mp typed
      obtain ⟨settled₁, le₁, resolves₁⟩ := ih₁ settled typed₁
      obtain ⟨settled₂, le₂, resolves₂⟩ := ih₂ settled₁ (first.typing ▸ typed₂)
      exact ⟨settled₂, le₁.trans le₂, fun later le =>
        Code.all_seq.mpr ⟨resolves₁ later (le₂.trans le), resolves₂ later le⟩⟩
  | otherwise _ ih =>
      obtain ⟨settled', le, resolves⟩ := ih settled typed
      exact ⟨settled', le, fun later le' => (Code.all_leading ends).mpr (resolves later le')⟩
  | lastArm evaluates tests _ ih =>
      rw [Work.bindings, Reference.armsBindings] at typed
      obtain ⟨settled', le, resolves⟩ := ih settled (List.forall_mem_append.mp typed).1
      refine ⟨settled', le, fun later le' => ?_⟩
      simp only [Code.all_seq, Code.all_fork, Code.all_leading ends, Code.all_skip]
      exact ⟨⟨evaluates.all admits_resolves fun _ _ => settled.read (le.trans le'),
        tests.all admits_resolves⟩, ends, resolves later le', trivial⟩
  | arm evaluates tests first _ ih₁ ih₂ =>
      rw [Work.bindings, Reference.armsBindings] at typed
      obtain ⟨typed₁, typed₂⟩ := List.forall_mem_append.mp typed
      obtain ⟨settled₁, le₁, resolves₁⟩ := ih₁ settled typed₁
      obtain ⟨settled₂, le₂, resolves₂⟩ := ih₂ settled₁ (first.typing ▸ typed₂)
      refine ⟨settled₂, le₁.trans le₂, fun later le => ?_⟩
      simp only [Code.all_seq, Code.all_fork, Code.all_leading ends]
      exact ⟨⟨evaluates.all admits_resolves fun _ _ => settled.read ((le₁.trans le₂).trans le),
        tests.all admits_resolves⟩, ends, resolves₁ later (le₂.trans le), resolves₂ later le⟩

end Translation

end LlvmBackend
