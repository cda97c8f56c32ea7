import LlvmBackend.Proofs.Translation.Iterators

/-! # Iterators of translated statements

What statements do to the slots of variables is told by what they bind: the first binding of a name
is to its slot if it keeps the type, and from a binding with another type on the slot is left alone.
-/

namespace LlvmBackend

open Ir Reference
open Lowering (resultName)

/-- The result of a function is not stored here. -/
def Surroundings.Spares (env : Surroundings) (storage : String) : Prop :=
  ∀ type, env.outcome = .result type → type ≠ Registry.void → storage ≠ resultName

namespace Names

variable {env : Surroundings} {names later last : Names} {storage : Operand}
  {bindings first second : Bindings}

/-- The names of storage are taken. -/
def Knows (names : Names) (storage : Operand) : Prop :=
  ∀ name, storage = .named name → name ∈ names.used

/-- Each name that the body bound has a slot, which no other name stands for. -/
structure Orderly (env : Surroundings) (names : Names) : Prop where
  stored : ∀ name value address, names.scopes.lookup name = some value →
    value.address = some address →
    ∃ storage ∈ names.used, address = .named storage ∧ env.Spares storage
  bound : ∀ name value, names.scopes.lookupLocal name = some value →
    ∃ slot ∈ names.slots, value.address = some slot
  apart : ∀ name value other value' slot, names.scopes.lookup name = some value →
    names.scopes.lookupLocal other = some value' → value.address = some slot →
    value'.address = some slot → name = other
  free : ∀ storage ∉ names.used, env.Spares storage

theorem Orderly.isStored (orderly : Orderly env names) : names.Stored := by
  intro name value address found at_address
  obtain ⟨storage, -, eq, -⟩ := orderly.stored name value address found at_address
  exact ⟨storage, eq⟩

theorem reusable?_eq_some_iff {name : String} {type : TypeId} {slot : Operand} :
    names.reusable? name type = some slot ↔ ∃ value, names.scopes.lookupLocal name = some value ∧
      value.type = type ∧ value.address = some slot ∧ slot ∈ names.slots := by
  simp only [reusable?, Option.bind_eq_bind, Option.bind_eq_some_iff, Option.pure_def, guard]
  constructor
  · rintro ⟨value, found, address, at_address, _, kept, eq⟩
    split at kept
    · next fits =>
        cases eq
        exact ⟨value, found, fits.1, at_address, fits.2⟩
    · cases kept
  · rintro ⟨value, found, type, at_slot, mem⟩
    exact ⟨value, found, slot, at_slot, (), if_pos ⟨type, mem⟩, rfl⟩

/-- Where names are bound, a slot stays that of its name up to a binding with another type. -/
structure Steps (bindings : Bindings) (names later : Names) : Prop where
  used : names.used ⊆ later.used
  kept : ∀ storage name type, names.Knows storage → later.reusable? name type = some storage →
    names.reusable? name type = some storage ∧ ∀ other ∈ bindings.lookup name, other = type
  free : ∀ storage name type, names.reusable? name type = some storage →
    bindings.lookup name = none → later.reusable? name type = some storage

/-- The first of these bindings of a name is to its slot. -/
def Refills (names : Names) (bindings : Bindings) (storage : Operand) : Prop :=
  ∃ name type, names.reusable? name type = some storage ∧ bindings.lookup name = some type

theorem not_refills_nil : ¬ names.Refills [] storage := by
  rintro ⟨_, _, _, bound⟩
  cases bound

/-- What is refilled is the slot of a variable that is first bound to a value of its own type. -/
theorem Refills.exists_variable (refills : names.Refills bindings storage) :
    ∃ name value, names.scopes.lookupLocal name = some value ∧ value.address = some storage ∧
      bindings.lookup name = some value.type := by
  obtain ⟨name, type, found, bound⟩ := refills
  obtain ⟨value, there, rfl, at_storage, -⟩ := reusable?_eq_some_iff.mp found
  exact ⟨name, value, there, at_storage, bound⟩

/-- Only storage that has a name is refilled. -/
theorem Orderly.exists_eq_named (orderly : names.Orderly env)
    (refills : names.Refills bindings storage) : ∃ free, storage = .named free := by
  obtain ⟨name, value, there, at_storage, -⟩ := refills.exists_variable
  exact orderly.isStored name value storage (Scopes.lookup_of_lookupLocal there) at_storage

theorem Knows.steps (knows : names.Knows storage) (steps : Steps bindings names later) :
    later.Knows storage := fun name eq => steps.used (knows name eq)

theorem Steps.refl (names : Names) : Steps [] names names :=
  ⟨List.Subset.refl _, fun _ _ _ _ found => ⟨found, by simp⟩, fun _ _ _ found _ => found⟩

theorem Steps.trans (steps : Steps first names later) (steps' : Steps second later last) :
    Steps (first ++ second) names last where
  used := List.Subset.trans steps.used steps'.used
  kept := by
    intro storage name type knows found
    obtain ⟨found, same'⟩ := steps'.kept storage name type (knows.steps steps) found
    obtain ⟨found, same⟩ := steps.kept storage name type knows found
    refine ⟨found, fun other bound => ?_⟩
    rw [List.lookup_append] at bound
    cases here : first.lookup name with
    | some other' =>
        rw [here] at bound
        cases bound
        exact same other here
    | none =>
        rw [here] at bound
        exact same' other bound
  free := by
    intro storage name type found none
    rw [List.lookup_append, Option.or_eq_none_iff] at none
    exact steps'.free storage name type (steps.free storage name type found none.1) none.2

/-- Bindings one after the other refill what the first ones do or the others do behind them. -/
theorem Steps.refills_append (steps : Steps first names later) (knows : names.Knows storage) :
    names.Refills (first ++ second) storage ↔
      names.Refills first storage ∨ later.Refills second storage := by
  constructor
  · rintro ⟨name, type, found, bound⟩
    rw [List.lookup_append] at bound
    cases here : first.lookup name with
    | some other =>
        rw [here] at bound
        cases bound
        exact .inl ⟨name, type, found, here⟩
    | none =>
        rw [here] at bound
        exact .inr ⟨name, type, steps.free storage name type found here, bound⟩
  · rintro (⟨name, type, found, bound⟩ | ⟨name, type, found, bound⟩)
    · exact ⟨name, type, found, by rw [List.lookup_append, bound]; rfl⟩
    · obtain ⟨found, same⟩ := steps.kept storage name type knows found
      refine ⟨name, type, found, ?_⟩
      rw [List.lookup_append]
      cases here : first.lookup name with
      | some other => exact congrArg some (same other here)
      | none => exact bound

end Names

namespace Translation

open Names

variable {env : Surroundings} {names names' : Names} {name : String} {type : TypeId}
  {slot storage : Operand}

/-- A slot that was known before is the one that the name has already. -/
theorem SlotFor.slot_eq_iff (slotFor : SlotFor env.types names name type slot code names')
    (knows : names.Knows storage) :
    slot = storage ↔ names.reusable? name type = some storage := by
  cases slotFor with
  | reused found => rw [found, Option.some.injEq]
  | new none =>
      rw [none]
      refine iff_of_false ?_ (by simp)
      rintro rfl
      exact Supply.freeName_not_mem _ _ (knows _ rfl)

theorem SlotFor.scopes_eq (slotFor : SlotFor env.types names name type slot code names') :
    names'.scopes = names.scopes := by
  cases slotFor <;> rfl

theorem SlotFor.slots (slotFor : SlotFor env.types names name type slot code names') :
    slot ∈ names'.slots ∧ names.slots ⊆ names'.slots ∧ names.used ⊆ names'.used := by
  cases slotFor with
  | reused found =>
      obtain ⟨_, _, _, _, mem⟩ := reusable?_eq_some_iff.mp found
      exact ⟨mem, List.Subset.refl _, List.Subset.refl _⟩
  | new => exact ⟨List.mem_cons_self, List.subset_cons_self _ _, List.subset_cons_self _ _⟩

theorem SlotFor.isPrivate (slotFor : SlotFor env.types names name type slot code names') :
    code.Private := by
  cases slotFor with
  | reused => exact .skip
  | new => exact ⟨by simp, rfl⟩

/-- No other name stands for the slot of a name. -/
theorem SlotFor.alone (slotFor : SlotFor env.types names name type slot code names')
    (orderly : names.Orderly env) {asked : String} {value : Value}
    (found : names.scopes.lookup asked = some value) (at_slot : value.address = some slot) :
    asked = name := by
  cases slotFor with
  | reused reused =>
      obtain ⟨known, there, -, at_slot', -⟩ := reusable?_eq_some_iff.mp reused
      exact orderly.apart asked value name known slot found there at_slot at_slot'
  | new =>
      obtain ⟨storage, taken, eq, -⟩ := orderly.stored asked value _ found at_slot
      cases eq
      exact absurd taken (Supply.freeName_not_mem _ _)

theorem SlotFor.exists_storage (slotFor : SlotFor env.types names name type slot code names')
    (orderly : names.Orderly env) :
    ∃ storage ∈ names'.used, slot = .named storage ∧ env.Spares storage := by
  cases slotFor with
  | reused reused =>
      obtain ⟨known, there, -, at_slot, -⟩ := reusable?_eq_some_iff.mp reused
      exact orderly.stored name known slot (Scopes.lookup_of_lookupLocal there) at_slot
  | new =>
      exact ⟨_, List.mem_cons_self, rfl, orderly.free _ (Supply.freeName_not_mem _ _)⟩

/-- Giving a name a slot keeps all other names away from it. -/
theorem SlotFor.orderly (slotFor : SlotFor env.types names name type slot code names')
    (orderly : names.Orderly env) :
    (names'.define name (.stable type slot)).Orderly env := by
  obtain ⟨mem, slots, used⟩ := slotFor.slots
  have lookup (asked : String) : (names'.define name (.stable type slot)).scopes.lookup asked =
      if asked = name then some (.stable type slot) else names.scopes.lookup asked := by
    rw [define, Scopes.lookup_define, slotFor.scopes_eq]
  have lookupLocal (asked : String) :
      (names'.define name (.stable type slot)).scopes.lookupLocal asked =
        if asked = name then some (.stable type slot) else names.scopes.lookupLocal asked := by
    rw [define, Scopes.lookupLocal_define, slotFor.scopes_eq]
  constructor
  · intro asked value address found at_address
    rw [lookup] at found
    split at found
    · cases found
      cases at_address
      exact slotFor.exists_storage orderly
    · obtain ⟨storage, taken, eq⟩ := orderly.stored asked value address found at_address
      exact ⟨storage, used taken, eq⟩
  · intro asked value found
    rw [lookupLocal] at found
    split at found
    · cases found
      exact ⟨slot, mem, rfl⟩
    · obtain ⟨known, there, at_known⟩ := orderly.bound asked value found
      exact ⟨known, slots there, at_known⟩
  · intro asked value other value' address found found' at_address at_address'
    rw [lookup] at found
    rw [lookupLocal] at found'
    split at found
    · next eq =>
        cases found
        cases at_address
        split at found'
        · next eq' => rw [eq, eq']
        · rw [eq, slotFor.alone orderly (Scopes.lookup_of_lookupLocal found') at_address']
    · split at found'
      · next eq' =>
          cases found'
          cases at_address'
          rw [eq', slotFor.alone orderly found at_address]
      · exact orderly.apart asked value other value' address found found' at_address at_address'
  · exact fun storage free => orderly.free storage fun taken => free (used taken)

theorem lookup_single (name asked : String) (type : TypeId) :
    [(name, type)].lookup asked = if asked = name then some type else none := by
  by_cases eq : asked = name
  · simp [eq]
  · rw [List.lookup_cons, beq_false_of_ne eq]
    simp [eq]

/-- Giving a name a slot is a binding. -/
theorem SlotFor.steps (slotFor : SlotFor env.types names name type slot code names') :
    Steps [(name, type)] names (names'.define name (.stable type slot)) := by
  obtain ⟨-, slots, used⟩ := slotFor.slots
  have lookupLocal (asked : String) :
      (names'.define name (.stable type slot)).scopes.lookupLocal asked =
        if asked = name then some (.stable type slot) else names.scopes.lookupLocal asked := by
    rw [define, Scopes.lookupLocal_define, slotFor.scopes_eq]
  refine ⟨used, ?_, ?_⟩
  · intro storage asked type' knows found
    obtain ⟨value, there, rfl, at_storage, mem⟩ := reusable?_eq_some_iff.mp found
    rw [lookupLocal] at there
    split at there
    · next eq =>
        cases there
        cases at_storage
        rw [eq]
        exact ⟨(slotFor.slot_eq_iff knows).mp rfl, by simp [Value.stable]⟩
    · next ne =>
        refine ⟨reusable?_eq_some_iff.mpr ⟨value, there, rfl, at_storage, ?_⟩, ?_⟩
        · cases slotFor with
          | reused => exact mem
          | new =>
              refine (List.mem_cons.mp mem).resolve_left ?_
              rintro rfl
              exact Supply.freeName_not_mem _ _ (knows _ rfl)
        · simp [lookup_single, ne]
  · intro storage asked type' found none
    obtain ⟨value, there, rfl, at_storage, mem⟩ := reusable?_eq_some_iff.mp found
    have ne : asked ≠ name := by
      rintro rfl
      simp at none
    exact reusable?_eq_some_iff.mpr
      ⟨value, by rw [lookupLocal, if_neg ne, there], rfl, at_storage, slots mem⟩

theorem refills_single :
    names.Refills [(name, type)] storage ↔ names.reusable? name type = some storage := by
  constructor
  · rintro ⟨asked, type', found, bound⟩
    rw [lookup_single] at bound
    split at bound
    · next eq =>
        cases bound
        rwa [eq] at found
    · cases bound
  · exact fun found => ⟨name, type, found, by simp⟩

/-- A binding refills a slot, or those behind it do. -/
theorem SlotFor.refills_cons (slotFor : SlotFor env.types names name type slot code names')
    (knows : names.Knows storage) {bindings : Bindings} :
    names.Refills ((name, type) :: bindings) storage ↔
      slot = storage ∨ (names'.define name (.stable type slot)).Refills bindings storage := by
  rw [← List.singleton_append, slotFor.steps.refills_append knows, refills_single,
    slotFor.slot_eq_iff knows]

/-! ## What statements fill -/

/-- Storage that code cannot have come by itself: names of it are taken, and it is neither that of a
    result nor a temporary of the code. -/
structure Outside (env : Surroundings) (names : Names) (temps : List Nat) (storage : Operand) :
    Prop where
  knows : names.Knows storage
  spared : ∀ name, storage = .named name → env.Spares name
  other : ∀ n ∈ temps, storage ≠ .temp n

theorem Outside.append {first second : List Nat}
    (outside : Outside env names (first ++ second) storage) :
    Outside env names first storage ∧ Outside env names second storage :=
  ⟨⟨outside.knows, outside.spared, fun n mem => outside.other n (List.mem_append_left _ mem)⟩,
    ⟨outside.knows, outside.spared, fun n mem => outside.other n (List.mem_append_right _ mem)⟩⟩

theorem Outside.steps {temps : List Nat} {bindings : Bindings}
    (outside : Outside env names temps storage) (steps : Steps bindings names names') :
    Outside env names' temps storage :=
  ⟨outside.knows.steps steps, outside.spared, outside.other⟩

theorem Outside.not_mem {code : Code} (outside : Outside env names code.temps storage)
    (isPrivate : code.Private) : storage ∉ code.fills := by
  intro mem
  obtain ⟨n, there, eq⟩ := isPrivate.fills storage mem
  exact outside.other n there eq

theorem Leaves.not_mem {value : Option Expr} {code : Code} (leaves : Leaves env names value code)
    (outside : Outside env names code.temps storage) : storage ∉ code.fills := by
  cases leaves with
  | bare => simp
  | dropped _ evaluates => simpa using outside.append.1.not_mem evaluates.isPrivate
  | result returns valued evaluates loads =>
      have none := outside.append.1.not_mem evaluates.isPrivate
      have none' := outside.append.2.append.1.not_mem loads.isPrivate
      have other : storage ≠ .named resultName := fun eq =>
        outside.spared resultName eq _ returns valued rfl
      simp [none, none', Instr.fills, Instr.gives?, other]

theorem tested_not_mem {test : Expr} {v : Value} {atTest testing : Code} {flag : Operand}
    (evaluates : Evaluates env names (.expr test) [v] atTest) (tests : Tests env v testing flag)
    (outside : Outside env names (atTest.seq testing).temps storage) :
    storage ∉ (atTest.seq testing).fills :=
  outside.not_mem (evaluates.isPrivate.seq tests.isPrivate)

theorem tested_drives {test : Expr} {v : Value} {atTest testing : Code} {flag : Operand}
    (evaluates : Evaluates env names (.expr test) [v] atTest) (tests : Tests env v testing flag) :
    (atTest.seq testing).drives = [] := (evaluates.isPrivate.seq tests.isPrivate).drives

/-- A loop over an iterator binds its target to an element, and then its body binds. -/
theorem bindings_forLoop {target : String} {source : Expr} {stmts : List Stmt} {v : Value}
    {atSource slotting : Code} {entry : MethodEntry} {element : TypeId}
    (evaluates : Evaluates env names (.expr source) [v] atSource)
    (found : env.types.method v.type Lowering.next = some entry)
    (resolved : env.types.resolve entry.returns = .ok element)
    (slotFor : SlotFor env.types names target element slot slotting names') :
    (Work.stmt (.forLoop target source stmts)).bindings env names.typing =
      (target, element) :: (Work.suite stmts).bindings env
        (names'.define target (.stable element slot)).typing := by
  rw [Names.typing_define, slotFor.traces.2, Work.bindings, stmtBindings,
    hasTypes_expr.mp evaluates.hasTypes, elementOf_eq found resolved]
  rfl

/-- A loop over an iterator fills the slot of its target, and what its body fills. -/
theorem SlotFor.mem_fills_loop (slotFor : SlotFor env.types names name type slot code names')
    {bindings : Bindings} {turn : Code}
    (fills : ∀ storage, Outside env (names'.define name (.stable type slot)) turn.temps storage →
      (storage ∈ turn.fills ↔ (names'.define name (.stable type slot)).Refills bindings storage))
    {role : Role} {n : Nat} {more : IrType} {symbol : String} {receiver : TypedOperand}
    {element : IrType} {body fin turnEnd head : BlockId} {flag : Operand} {ended : Bool}
    (outside : Outside env names (Code.loop body fin
      (.instr role (.call (some (.temp n)) more symbol [receiver, ⟨element, slot⟩])) flag
      (turn.leading ended turnEnd head)).temps storage) :
    storage ∈ (Code.loop body fin
      (.instr role (.call (some (.temp n)) more symbol [receiver, ⟨element, slot⟩])) flag
      (turn.leading ended turnEnd head)).fills ↔ names.Refills ((name, type) :: bindings) storage := by
  have atTurn := outside.append.2
  rw [Code.temps_leading] at atTurn
  rw [slotFor.refills_cons outside.knows, ← fills storage (atTurn.steps slotFor.steps)]
  simp [Instr.fills, Instr.gives?, eq_comm]

theorem bindings_ends {first : Stmt} {code : Code}
    (lowers : Lowers env (.stmt first) names names' true code) (rest : List Stmt) :
    (Work.suite (first :: rest)).bindings env names.typing =
      (Work.stmt first).bindings env names.typing := by
  show suiteBindings _ _ _ _ = stmtBindings _ _ _ _
  rw [suiteBindings, ← lowers.isReturn, if_pos rfl, List.append_nil]

theorem bindings_goesOn {first : Stmt} {code : Code}
    (lowers : Lowers env (.stmt first) names names' false code) (rest : List Stmt) :
    (Work.suite (first :: rest)).bindings env names.typing =
      (Work.stmt first).bindings env names.typing ++
        (Work.suite rest).bindings env names'.typing := by
  show suiteBindings _ _ _ _ = stmtBindings _ _ _ _ ++ suiteBindings _ _ _ _
  rw [suiteBindings, ← lowers.isReturn, if_neg (by simp), lowers.typing]
  rfl

theorem bindings_arm {test : Expr} {stmts : List Stmt} {ended : Bool} {code : Code} {fin : BlockId}
    (lowers : Lowers env (.suite stmts) names names' ended code) (rest : List Arm) :
    (Work.arms fin (.mk (some test) stmts :: rest)).bindings env names.typing =
      (Work.suite stmts).bindings env names.typing ++
        (Work.arms fin rest).bindings env names'.typing := by
  show armsBindings _ _ _ _ = suiteBindings _ _ _ _ ++ armsBindings _ _ _ _
  rw [armsBindings, lowers.typing]
  rfl

/-- Statements fill the slots of variables as their bindings tell. -/
theorem Lowers.fills {work : Work} {ended : Bool} {code : Code}
    (lowers : Lowers env work names names' ended code) (orderly : names.Orderly env) :
    names'.Orderly env ∧ Steps (work.bindings env names.typing) names names' ∧
      ∀ storage, Outside env names code.temps storage →
        (storage ∈ code.fills ↔ names.Refills (work.bindings env names.typing) storage) := by
  induction lowers with
  | assign evaluates loads slotFor =>
      rw [Work.bindings, stmtBindings, hasTypes_expr.mp evaluates.hasTypes]
      refine ⟨slotFor.orderly orderly, slotFor.steps, fun storage outside => ?_⟩
      obtain ⟨atValue, atLoad, atSlot, -⟩ := outside.append.imp_right
        fun outside => outside.append.imp_right Outside.append
      rw [refills_single, ← slotFor.slot_eq_iff outside.knows]
      simp [atValue.not_mem evaluates.isPrivate, atLoad.not_mem loads.isPrivate,
        atSlot.not_mem slotFor.isPrivate, Instr.fills, Instr.gives?, eq_comm]
  | noArms => exact ⟨orderly, .refl _, fun storage _ => iff_of_false (by simp) not_refills_nil⟩
  | ifChain _ ih => exact ih orderly
  | whileLoop evaluates tests _ ih =>
      obtain ⟨orderly', steps, fills⟩ := ih orderly
      refine ⟨orderly', steps, fun storage outside => ?_⟩
      obtain ⟨atTest, atTurn⟩ := outside.append.2.append
      rw [Code.temps_leading] at atTurn
      rw [Code.fills_seq, Code.fills_jump, List.nil_append, Code.fills_loop, Code.fills_leading,
        List.mem_append, or_iff_right (tested_not_mem evaluates tests atTest)]
      exact fills storage atTurn
  | forLoop evaluates found resolved places slotFor _ _ releases ih =>
      obtain ⟨orderly', steps, fills⟩ := ih (slotFor.orderly orderly)
      rw [bindings_forLoop evaluates found resolved slotFor]
      refine ⟨orderly', slotFor.steps.trans steps, fun storage outside => ?_⟩
      obtain ⟨atSource, outside⟩ := outside.append
      obtain ⟨atPlace, outside⟩ := outside.append
      obtain ⟨atSlot, outside⟩ := outside.append
      obtain ⟨atLoop, atRelease⟩ := outside.append
      rw [← slotFor.mem_fills_loop fills atLoop.append.2]
      simp only [Code.fills_seq, Code.fills_jump, List.nil_append, List.mem_append,
        atSource.not_mem evaluates.isPrivate, atPlace.not_mem places.isPrivate,
        atSlot.not_mem slotFor.isPrivate, atRelease.not_mem releases.isPrivate, false_or, or_false]
  | ret leaves =>
      exact ⟨orderly, .refl _, fun storage outside =>
        iff_of_false (leaves.not_mem outside) not_refills_nil⟩
  | effect evaluates =>
      exact ⟨orderly, .refl _, fun storage outside =>
        iff_of_false (outside.not_mem evaluates.isPrivate) not_refills_nil⟩
  | nil => exact ⟨orderly, .refl _, fun storage _ => iff_of_false (by simp) not_refills_nil⟩
  | ends first ih =>
      rw [bindings_ends first]
      exact ih orderly
  | goesOn first _ ih₁ ih₂ =>
      obtain ⟨orderly₁, steps₁, fills₁⟩ := ih₁ orderly
      obtain ⟨orderly₂, steps₂, fills₂⟩ := ih₂ orderly₁
      rw [bindings_goesOn first]
      refine ⟨orderly₂, steps₁.trans steps₂, fun storage outside => ?_⟩
      obtain ⟨atFirst, atRest⟩ := outside.append
      rw [steps₁.refills_append outside.knows, Code.fills_seq, List.mem_append]
      exact or_congr (fills₁ storage atFirst) (fills₂ storage (atRest.steps steps₁))
  | otherwise _ ih =>
      rw [Code.temps_leading, Code.fills_leading]
      exact ih orderly
  | lastArm evaluates tests _ ih =>
      obtain ⟨orderly', steps, fills⟩ := ih orderly
      rw [Work.bindings, armsBindings, armsBindings, List.append_nil]
      refine ⟨orderly', steps, fun storage outside => ?_⟩
      obtain ⟨atTest, atBody⟩ := outside.append
      have atBody := atBody.append.1
      rw [Code.temps_leading] at atBody
      rw [Code.fills_seq, Code.fills_fork, Code.fills_skip, List.append_nil, Code.fills_leading,
        List.mem_append, or_iff_right (tested_not_mem evaluates tests atTest)]
      exact fills storage atBody
  | arm evaluates tests first _ ih₁ ih₂ =>
      obtain ⟨orderly₁, steps₁, fills₁⟩ := ih₁ orderly
      obtain ⟨orderly₂, steps₂, fills₂⟩ := ih₂ orderly₁
      rw [bindings_arm first]
      refine ⟨orderly₂, steps₁.trans steps₂, fun storage outside => ?_⟩
      obtain ⟨atTest, outside⟩ := outside.append
      obtain ⟨atBody, atRest⟩ := outside.append
      rw [Code.temps_leading] at atBody
      rw [steps₁.refills_append atRest.knows, Code.fills_seq, Code.fills_fork, Code.fills_leading,
        List.mem_append, or_iff_right (tested_not_mem evaluates tests atTest), List.mem_append]
      exact or_congr (fills₁ storage atBody) (fills₂ storage (atRest.steps steps₁))

/-! ## Iterators -/

theorem typing_of_lookupLocal {value : Value} (found : names.scopes.lookupLocal name = some value) :
    names.typing name = ⟨value.type, true⟩ := by
  simp [Names.typing, found, Scopes.lookup_of_lookupLocal found]

/-- What names stand for is not of the code behind them. -/
theorem outside_of_lookup (orderly : names.Orderly env) {value : Value}
    (found : names.scopes.lookup name = some value) (at_storage : value.address = some storage)
    (temps : List Nat) : Outside env names temps storage := by
  obtain ⟨free, taken, rfl, spared⟩ := orderly.stored name value storage found at_storage
  exact ⟨by rintro _ ⟨⟩; exact taken, by rintro _ ⟨⟩; exact spared, by simp⟩

/-- A loop over an iterator fills storage that the iterator may be in exactly if it refills the slot
    of a name whose storage this may be. -/
theorem replaced_iff {parts : List Part} {own temps : List Nat} {sources : List String}
    {iterator : Operand} (stands : Stands parts names own sources iterator)
    (orderly : names.Orderly env) (apart : own.Disjoint temps) {filled : List Operand}
    {bindings : Bindings} (fills : ∀ storage, Outside env names temps storage →
      (storage ∈ filled ↔ names.Refills bindings storage)) :
    (∃ storage ∈ filled, Denotes parts iterator storage) ↔ ∃ name ∈ sources,
      (names.typing name).rebound ∧ bindings.lookup name = some (names.typing name).type := by
  constructor
  · rintro ⟨storage, mem, denotes⟩
    -- Only storage of names is refilled, and only one name has it.
    rcases stands.only storage denotes with ⟨n, there, rfl⟩ | ⟨symbol, rfl⟩ |
      ⟨asked, mem', known, found, at_known⟩
    · have outside : Outside env names temps (.temp n) :=
        ⟨by rintro _ ⟨⟩, by rintro _ ⟨⟩, by rintro m mem ⟨⟩; exact apart there mem⟩
      obtain ⟨free, eq⟩ := orderly.exists_eq_named ((fills _ outside).mp mem)
      cases eq
    · have outside : Outside env names temps (.symbol symbol) :=
        ⟨by rintro _ ⟨⟩, by rintro _ ⟨⟩, by simp⟩
      obtain ⟨free, eq⟩ := orderly.exists_eq_named ((fills _ outside).mp mem)
      cases eq
    · have refills := (fills storage (outside_of_lookup orderly found at_known temps)).mp mem
      obtain ⟨name, value, there, at_storage, bound⟩ := Refills.exists_variable refills
      obtain rfl := orderly.apart asked known name value storage found there at_known at_storage
      exact ⟨asked, mem', by rw [typing_of_lookupLocal there], by rw [typing_of_lookupLocal there, bound]⟩
  · rintro ⟨name, mem, rebound, bound⟩
    obtain ⟨value, found⟩ := Option.isSome_iff_exists.mp rebound
    obtain ⟨slot, there, at_slot⟩ := orderly.bound name value found
    have found' := Scopes.lookup_of_lookupLocal found
    refine ⟨slot, ?_, stands.all name mem value slot found' at_slot⟩
    rw [fills slot (outside_of_lookup orderly found' at_slot temps)]
    rw [typing_of_lookupLocal found] at bound
    exact ⟨name, value.type, reusable?_eq_some_iff.mpr ⟨value, found, rfl, at_slot, there⟩, bound⟩

/-- The loops of work by the reference semantics. -/
def Work.iterations (env : Surroundings) (typing : Typing) : Work → List Iteration
  | .stmt statement => stmtIterations env.types env.signatures typing statement
  | .suite statements => suiteIterations env.types env.signatures typing statements
  | .arms _ conditions => armsIterations env.types env.signatures typing conditions

theorem iterations_forLoop {target : String} {source : Expr} {stmts : List Stmt} {v : Value}
    {atSource slotting : Code} {entry : MethodEntry} {element : TypeId}
    (evaluates : Evaluates env names (.expr source) [v] atSource)
    (found : env.types.method v.type Lowering.next = some entry)
    (resolved : env.types.resolve entry.returns = .ok element)
    (slotFor : SlotFor env.types names target element slot slotting names') :
    (Work.stmt (.forLoop target source stmts)).iterations env names.typing =
      ⟨names.typing, target, source, stmts⟩ :: (Work.suite stmts).iterations env
        (names'.define target (.stable element slot)).typing := by
  rw [Names.typing_define, slotFor.traces.2, Work.iterations, stmtIterations,
    hasTypes_expr.mp evaluates.hasTypes, elementOf_eq found resolved]
  rfl

theorem iterations_ends {first : Stmt} {code : Code}
    (lowers : Lowers env (.stmt first) names names' true code) (rest : List Stmt) :
    (Work.suite (first :: rest)).iterations env names.typing =
      (Work.stmt first).iterations env names.typing := by
  show suiteIterations _ _ _ _ = stmtIterations _ _ _ _
  rw [suiteIterations, ← lowers.isReturn, if_pos rfl, List.append_nil]

theorem iterations_goesOn {first : Stmt} {code : Code}
    (lowers : Lowers env (.stmt first) names names' false code) (rest : List Stmt) :
    (Work.suite (first :: rest)).iterations env names.typing =
      (Work.stmt first).iterations env names.typing ++
        (Work.suite rest).iterations env names'.typing := by
  show suiteIterations _ _ _ _ = stmtIterations _ _ _ _ ++ suiteIterations _ _ _ _
  rw [suiteIterations, ← lowers.isReturn, if_neg (by simp), lowers.typing]
  rfl

theorem iterations_arm {test : Expr} {stmts : List Stmt} {ended : Bool} {code : Code}
    {fin : BlockId} (lowers : Lowers env (.suite stmts) names names' ended code) (rest : List Arm) :
    (Work.arms fin (.mk (some test) stmts :: rest)).iterations env names.typing =
      (Work.suite stmts).iterations env names.typing ++
        (Work.arms fin rest).iterations env names'.typing := by
  show armsIterations _ _ _ _ = suiteIterations _ _ _ _ ++ armsIterations _ _ _ _
  rw [armsIterations, lowers.typing]
  rfl

theorem Leaves.drives {value : Option Expr} {code : Code} (leaves : Leaves env names value code) :
    code.drives = [] := by
  cases leaves with
  | bare => rfl
  | dropped _ evaluates => simp [Code.drives, evaluates.isPrivate.drives]
  | result _ _ evaluates loads =>
      simp [Code.drives, evaluates.isPrivate.drives, loads.isPrivate.drives]

theorem owned_of_sublist {parts : List Part} {own : List Nat} {code : Code}
    (sub : code.parts.Sublist parts) (within : code.temps ⊆ own) : code.All (Owned parts own) := by
  intro part mem
  refine ⟨sub.subset mem, fun n number => within ?_⟩
  rw [code.temps_eq]
  exact List.mem_filterMap.mpr ⟨part, mem, number⟩

/-- The storage that a loop takes its iterator in stands for what the source of the loop tells. -/
theorem stands_source {source : Expr} {v v' : Value} {atSource placing : Code} {iterator : Operand}
    (evaluates : Evaluates env names (.expr source) [v] atSource)
    (places : Places env.types v placing iterator v') (stored : names.Stored) {parts : List Part}
    (singled : Singled parts) (subSource : atSource.parts.Sublist parts)
    (subPlacing : placing.parts.Sublist parts) :
    Stands parts names (atSource.temps ++ placing.temps)
      (denoted env.types env.signatures names.typing source) iterator := by
  have owned : atSource.All (Owned parts (atSource.temps ++ placing.temps)) :=
    owned_of_sublist subSource (List.subset_append_left _ _)
  have owned' : placing.All (Owned parts (atSource.temps ++ placing.temps)) :=
    owned_of_sublist subPlacing (List.subset_append_right _ _)
  exact places.stands singled
    (evaluates.stands singled stored owned rfl v (List.mem_singleton_self v)) owned'

theorem apart_of_nodup {first second third fourth fifth : List Nat}
    (nodup : (first ++ (second ++ (third ++ (fourth ++ fifth)))).Nodup) :
    (first ++ second).Disjoint fourth := by
  obtain ⟨-, rest, apart⟩ := List.nodup_append'.mp nodup
  obtain ⟨-, -, apart'⟩ := List.nodup_append'.mp rest
  intro n mem mem'
  rcases List.mem_append.mp mem with mem | mem
  · exact apart mem (by simp [mem'])
  · exact apart' mem (by simp [mem'])

/-- The loops of translated statements fill the storage of their iterators exactly if the loops of
    the source rebind a name that this may be the storage of. -/
theorem Lowers.replaced_iff {work : Work} {ended : Bool} {code : Code}
    (lowers : Lowers env work names names' ended code) (orderly : names.Orderly env)
    {parts : List Part} (singled : Singled parts) (sub : code.parts.Sublist parts) :
    List.Forall₂ (fun drive iteration =>
        drive.Replaced parts ↔ iteration.Rebinds env.types env.signatures)
      code.drives (work.iterations env names.typing) := by
  induction lowers with
  | assign evaluates loads slotFor =>
      simp only [Code.drives, evaluates.isPrivate.drives, loads.isPrivate.drives,
        slotFor.isPrivate.drives, List.append_nil]
      exact .nil
  | noArms => exact .nil
  | ifChain _ ih => exact ih orderly sub
  | whileLoop evaluates tests _ ih =>
      have turns := ih orderly (Code.sublist_leading (Code.sublist_loop (Code.sublist_seq sub).2).2)
      simp only [Code.drives, evaluates.isPrivate.drives, tests.isPrivate.drives, Code.asked?,
        Code.drives_leading, Option.toList_none, List.map_nil, List.nil_append]
      exact turns
  | forLoop evaluates found resolved places slotFor _ lowers releases ih =>
      obtain ⟨atSource, rest⟩ := Code.sublist_seq sub
      obtain ⟨atPlace, rest⟩ := Code.sublist_seq rest
      obtain ⟨atLoop, -⟩ := Code.sublist_seq (Code.sublist_seq rest).2
      have atTurn := Code.sublist_leading (Code.sublist_loop (Code.sublist_seq atLoop).2).2
      have orderly' := slotFor.orderly orderly
      have stands := stands_source evaluates places orderly.isStored singled atSource atPlace
      rw [iterations_forLoop evaluates found resolved slotFor]
      simp only [Code.drives, evaluates.isPrivate.drives, places.isPrivate.drives,
        slotFor.isPrivate.drives, releases.isPrivate.drives, Code.drives_leading, Code.asked?,
        Option.toList_some, List.map_cons, List.map_nil, List.nil_append, List.append_nil,
        List.singleton_append]
      have apart := apart_of_nodup (singled.nodup_temps sub)
      refine .cons (Translation.replaced_iff stands orderly apart fun storage outside => ?_)
        (ih orderly' atTurn)
      obtain ⟨-, -, fills⟩ := lowers.fills orderly'
      rw [slotFor.mem_fills_loop fills outside.append.2,
        ← bindings_forLoop evaluates found resolved slotFor]
      rfl
  | ret leaves =>
      rw [leaves.drives]
      exact .nil
  | effect evaluates =>
      rw [evaluates.isPrivate.drives]
      exact .nil
  | nil => exact .nil
  | ends first ih =>
      rw [iterations_ends first]
      exact ih orderly sub
  | goesOn first _ ih₁ ih₂ =>
      obtain ⟨atFirst, atRest⟩ := Code.sublist_seq sub
      rw [iterations_goesOn first]
      exact List.rel_append (ih₁ orderly atFirst) (ih₂ (first.fills orderly).1 atRest)
  | otherwise _ ih =>
      rw [Code.drives_leading]
      exact ih orderly (Code.sublist_leading sub)
  | lastArm evaluates tests _ ih =>
      have atBody := (Code.sublist_fork (Code.sublist_seq sub).2).1
      rw [Code.drives, tested_drives evaluates tests, Code.drives, Code.drives_leading, Work.iterations,
        armsIterations, armsIterations]
      exact List.rel_append (ih orderly (Code.sublist_leading atBody)) .nil
  | arm evaluates tests first _ ih₁ ih₂ =>
      obtain ⟨atBody, atRest⟩ := Code.sublist_fork (Code.sublist_seq sub).2
      rw [Code.drives, tested_drives evaluates tests, Code.drives, Code.drives_leading, iterations_arm first]
      exact List.rel_append (ih₁ orderly (Code.sublist_leading atBody))
        (ih₂ (first.fills orderly).1 atRest)

end Translation

end LlvmBackend
