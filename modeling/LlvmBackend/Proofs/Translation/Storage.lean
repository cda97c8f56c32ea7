import LlvmBackend.Proofs.Translation.Parts

/-! # Storage that translated code writes to

Code stores values in temporaries that it allocates for them and in the slots of variables, and calls
write to such storage what they give: results and the elements of iterators. Only the result of the
function goes elsewhere.
-/

namespace LlvmBackend

open Ir
open Lowering (teardown next resultName argvSymbol Connective)

/-- What an instruction writes to: storage of its function, if it is no instruction that passes the
    result of the function on, tears a value down or calls what gives nothing back. -/
inductive Writes (env : Surroundings) (owns : Operand → Prop) : Role → Instr → Prop where
  /-- Neither a store nor a call. -/
  | nothing : i.gives? = none → i.callee? = none → Writes env owns role i
  | value : role ≠ .result → owns slot → Writes env owns role (.store value slot)
  | result :
      env.outcome = .result returns →
      returns ≠ Registry.void →
      Writes env owns .result (.store ⟨⟨env.types.ir returns⟩, operand⟩ (.named resultName))
  /-- A call of something that gives nothing back. -/
  | calls {callee : Callee} {given : List TypeId} {target : Target} {operands : List TypedOperand} :
      callee.Suits env.types given →
      callee.bind env.types env.signatures given = .ok target →
      target.returns = Registry.void →
      operands.map TypedOperand.type = given.map env.types.paramIr →
      Writes env owns .plain (.call none .void target.symbol operands)
  /-- A call with a place for its result. -/
  | gives {callee : Callee} {given : List TypeId} {target : Target} {operands : List TypedOperand} :
      callee.Suits env.types given →
      callee.bind env.types env.signatures given = .ok target →
      target.returns ≠ Registry.void →
      operands.map TypedOperand.type = given.map env.types.paramIr →
      owns slot →
      Writes env owns .plain (.call none .void target.symbol
        (operands ++ [⟨.ptr ⟨env.types.ir target.returns⟩, slot⟩]))
  | tearsDown :
      env.types.method type teardown = some entry →
      Writes env owns .release (Translation.teardownCall env.types type entry address)
  /-- A call that gives the next element of an iterator. -/
  | advances {entry : MethodEntry} :
      env.types.method receiver next = some entry →
      env.types.resolve entry.returns = .ok element →
      owns slot →
      Writes env owns (.write name element) (.call (some more) .i1 entry.symbol
        [⟨.ptr ⟨env.types.ir receiver⟩, iterator⟩, ⟨.ptr ⟨env.types.ir element⟩, slot⟩])
  /-- The call that decodes the arguments of a process. -/
  | decodes :
      owns slot →
      Writes env owns .plain (.call none .void argvSymbol [count, values, ⟨type, slot⟩])

/-- The storage that a part allocates. -/
def Part.allocates? : Part → Option Operand
  | .instr _ (.alloca dest _) => some dest
  | .slot name _ => some (.named name)
  | _ => none

namespace Code

variable {env : Surroundings} {owns : Operand → Prop} {first second code : Code}

/-- All that code allocates is owned. -/
def Owned (owns : Operand → Prop) (code : Code) : Prop :=
  code.All fun part => ∀ slot ∈ part.allocates?, owns slot

/-- Where all that it allocates is owned, code writes to owned storage only. -/
def WritesOwned (env : Surroundings) (owns : Operand → Prop) (code : Code) : Prop :=
  code.Owned owns → code.All fun part => ∀ role i, part = .instr role i → Writes env owns role i

namespace WritesOwned

theorem of_no_instr (none : ∀ role i, .instr role i ∉ code.parts) : code.WritesOwned env owns := by
  rintro _ _ mem role i rfl
  exact absurd mem (none role i)

theorem skip : WritesOwned env owns .skip := of_no_instr (by simp [parts])

theorem jump {source target : BlockId} : WritesOwned env owns (.jump source target) :=
  of_no_instr (by simp [parts])

theorem ret {value : Option TypedOperand} : WritesOwned env owns (.ret value) :=
  of_no_instr (by simp [parts])

theorem instr {role : Role} {i : Instr} (writes : Writes env owns role i) :
    WritesOwned env owns (.instr role i) := by
  intro _
  rw [all_instr]
  rintro _ _ ⟨⟩
  exact writes

theorem alloca {dest : Operand} {type : IrType} :
    WritesOwned env owns (.instr .plain (.alloca dest type)) := instr (.nothing rfl rfl)

/-- What the first part allocates is there for the second one. -/
theorem seq (h₁ : first.WritesOwned env owns)
    (h₂ : first.Owned owns → second.WritesOwned env owns) :
    WritesOwned env owns (.seq first second) := by
  intro owned
  obtain ⟨owned₁, owned₂⟩ := all_seq.mp owned
  exact all_seq.mpr ⟨h₁ owned₁, h₂ owned₁ owned₂⟩

theorem andThen (h₁ : first.WritesOwned env owns) (h₂ : second.WritesOwned env owns) :
    WritesOwned env owns (.seq first second) := h₁.seq fun _ => h₂

theorem fork {role : Role} {flag : Operand} {a b : BlockId} (h₁ : first.WritesOwned env owns)
    (h₂ : second.WritesOwned env owns) :
    WritesOwned env owns (.fork role flag a b first second) := by
  intro owned
  obtain ⟨_, owned₁, owned₂⟩ := all_fork.mp owned
  exact all_fork.mpr ⟨by simp, h₁ owned₁, h₂ owned₂⟩

theorem sides {taken : Bool} {flag : Operand} {a b : BlockId} (h₁ : first.WritesOwned env owns)
    (h₂ : second.WritesOwned env owns) :
    WritesOwned env owns (.sides taken flag a b first second) := by
  cases taken with
  | true => exact h₁.fork h₂
  | false => exact h₂.fork h₁

theorem loop {body fin : BlockId} {flag : Operand} (h₁ : first.WritesOwned env owns)
    (h₂ : second.WritesOwned env owns) :
    WritesOwned env owns (.loop body fin first flag second) := by
  intro owned
  obtain ⟨_, owned₁, owned₂⟩ := all_loop.mp owned
  exact all_loop.mpr ⟨by simp, h₁ owned₁, h₂ owned₂⟩

theorem leading {ended : Bool} {source fin : BlockId} (h : code.WritesOwned env owns) :
    (code.leading ended source fin).WritesOwned env owns := by
  cases ended with
  | true => exact h
  | false => exact h.andThen jump

end WritesOwned

theorem Owned.alloca {role : Role} {dest : Operand} {type : IrType}
    (owned : Owned owns (.instr role (.alloca dest type))) : owns dest :=
  all_instr.mp owned dest rfl

end Code

namespace Translation

variable {env : Surroundings} {owns : Operand → Prop} {v w : Value}

/-! ## Expressions -/

theorem Loads.writesOwned (loads : Loads env.types v code operand w) :
    code.WritesOwned env owns := by
  cases loads with
  | direct | cached => exact .skip
  | addressed => exact .instr (.nothing rfl rfl)

/-- A copy is stored where it was allocated. -/
theorem Places.writesOwned (places : Places env.types v code address w) :
    code.WritesOwned env owns := by
  cases places with
  | addressed | cached => exact .skip
  | direct => exact .seq .alloca fun owned => .instr (.value (by simp) owned.alloca)

theorem Passes.writesOwned {operand : TypedOperand} (passes : Passes env.types v code operand w) :
    code.WritesOwned env owns := by
  cases passes with
  | byValue _ loads => exact loads.writesOwned
  | byAddress _ places => exact places.writesOwned

theorem PassesAll.writesOwned {vs ws : List Value} {operands : List TypedOperand}
    (passes : PassesAll env.types vs code operands ws) : code.WritesOwned env owns := by
  induction passes with
  | nil => exact .skip
  | cons first _ ih => exact first.writesOwned.andThen ih

theorem Releases.writesOwned (releases : Releases env.types v code) :
    code.WritesOwned env owns := by
  cases releases with
  | nothing => exact .skip
  | always _ entry => exact .instr (.tearsDown entry)
  | guarded _ entry => exact .fork (.andThen (.instr (.tearsDown entry)) .jump) .skip

theorem ReleasesAll.writesOwned {vs : List Value} (releases : ReleasesAll env.types vs code) :
    code.WritesOwned env owns := by
  induction releases with
  | nil => exact .skip
  | cons first _ ih => exact first.writesOwned.andThen ih

theorem Owners.writesOwned {type : TypeId} {first second : Binding × BlockId} {binding : Binding}
    (owners : Owners env.types type first second code binding) : code.WritesOwned env owns := by
  cases owners with
  | temporary | stable => exact .skip
  | flag => exact .instr (.nothing rfl rfl)

theorem Joins.writesOwned {type : TypeId} {first second : Operand × Binding × BlockId}
    (joins : Joins env.types type first second code v) : code.WritesOwned env owns := by
  cases joins with
  | intro _ owners => exact .andThen (.instr (.nothing rfl rfl)) owners.writesOwned

/-- The place for a result is allocated right before the call. -/
theorem Dispatches.writesOwned {callee : Callee} {args : List Value} {result : Option Value}
    (dispatches : Dispatches env callee args code result)
    (suits : callee.Suits env.types (args.map (·.type))) : code.WritesOwned env owns := by
  cases dispatches with
  | void bound passes void releases =>
      exact passes.writesOwned.andThen
        (.andThen (.instr (.calls suits bound void passes.types_eq)) releases.writesOwned)
  | result bound passes returns releases =>
      exact passes.writesOwned.andThen (.seq .alloca fun owned =>
        .andThen (.instr (.gives suits bound returns passes.types_eq owned.alloca))
          releases.writesOwned)

theorem Coerces.writesOwned (coerces : Coerces env v code w) : code.WritesOwned env owns := by
  cases coerces with
  | already => exact .skip
  | calls _ dispatches =>
      exact dispatches.writesOwned (by simp [Callee.boolean, Callee.Suits, Callee.protocols])

theorem Tests.writesOwned {flag : Operand} (tests : Tests env v code flag) :
    code.WritesOwned env owns := by
  cases tests with
  | intro coerces loads => exact coerces.writesOwned.andThen loads.writesOwned

theorem Negates.writesOwned (negates : Negates env v code w) : code.WritesOwned env owns := by
  cases negates with
  | intro loads => exact loads.writesOwned.andThen (.instr (.nothing rfl rfl))

theorem Operates.writesOwned {op : BinaryOperator} {left right : Value}
    (operates : Operates env op left right code v) : code.WritesOwned env owns := by
  cases operates with
  | plain found accepts dispatches =>
      exact dispatches.writesOwned ⟨op, rfl, _, _, found, rfl, accepts⟩
  | negated found accepts dispatches _ negates =>
      exact (dispatches.writesOwned ⟨op, rfl, _, _, found, rfl, accepts⟩).andThen
        negates.writesOwned

theorem Decides.writesOwned {connective : Connective} {left right : Value} {flag : Operand}
    {atRight : Code} (decides : Decides env connective left right flag atRight code v)
    (h : atRight.WritesOwned env owns) : code.WritesOwned env owns := by
  cases decides with
  | alike _ placesRight releases placesLeft _ joins =>
      refine .andThen (.sides ?_ (placesLeft.writesOwned.andThen .jump)) joins.writesOwned
      exact .andThen (h.andThen (placesRight.writesOwned.andThen releases.writesOwned)) .jump
  | flags _ tests releases =>
      refine .andThen (.andThen (.sides ?_ (.andThen .skip .jump)) (.instr (.nothing rfl rfl)))
        releases.writesOwned
      exact .andThen (h.andThen tests.writesOwned) .jump

theorem Connects.writesOwned {connective : Connective} {left right : Value}
    {atLeft atRight : Code} (connects : Connects env connective left right atLeft atRight code v)
    (h₁ : atLeft.WritesOwned env owns) (h₂ : atRight.WritesOwned env owns) :
    code.WritesOwned env owns := by
  cases connects with
  | intro tests decides => exact h₁.andThen (tests.writesOwned.andThen (decides.writesOwned h₂))

theorem Chooses.writesOwned {test onTrue onFalse : Value} {atTest atTrue atFalse : Code}
    (chooses : Chooses env test onTrue onFalse atTest atTrue atFalse code v)
    (h₁ : atTest.WritesOwned env owns) (h₂ : atTrue.WritesOwned env owns)
    (h₃ : atFalse.WritesOwned env owns) : code.WritesOwned env owns := by
  cases chooses with
  | intro _ tests placesTrue placesFalse _ joins =>
      exact .andThen (h₁.andThen tests.writesOwned) (.andThen
        (.sides (.andThen (h₂.andThen placesTrue.writesOwned) .jump)
          (.andThen (h₃.andThen placesFalse.writesOwned) .jump)) joins.writesOwned)

theorem Indexes.writesOwned {container position : Value} {atContainer atPosition : Code}
    (indexes : Indexes env container position atContainer atPosition code v)
    (h₁ : atContainer.WritesOwned env owns) (h₂ : atPosition.WritesOwned env owns) :
    code.WritesOwned env owns := by
  cases indexes with
  | intro _ _ _ loads loads' releases =>
      exact h₁.andThen (h₂.andThen (loads.writesOwned.andThen (loads'.writesOwned.andThen
        (.andThen (.instr (.nothing rfl rfl)) releases.writesOwned))))

/-- The code of expressions writes to storage that it allocates. -/
theorem Evaluates.writesOwned {names : Names} {phrase : Phrase} {vs : List Value}
    (evaluates : Evaluates env names phrase vs code) : code.WritesOwned env owns := by
  induction evaluates with
  | literal | nil => exact .skip
  | name => exact .of_no_instr (by simp [Code.parts])
  | binary _ _ operates ih₁ ih₂ => exact ih₁.andThen (ih₂.andThen operates.writesOwned)
  | not _ coerces negates ih => exact ih.andThen (coerces.writesOwned.andThen negates.writesOwned)
  | and _ _ connects ih₁ ih₂ | or _ _ connects ih₁ ih₂ => exact connects.writesOwned ih₁ ih₂
  | ternary _ _ _ chooses ih₁ ih₂ ih₃ => exact chooses.writesOwned ih₁ ih₂ ih₃
  | index _ _ indexes ih₁ ih₂ => exact indexes.writesOwned ih₁ ih₂
  | call resolved _ dispatches ih =>
      exact ih.andThen (dispatches.writesOwned (suits_resolve resolved _))
  | cons _ _ ih₁ ih₂ => exact ih₁.andThen ih₂

/-! ## Statements -/

theorem SlotFor.writesOwned {types : Registry} {names names' : Names} {name : String}
    {type : TypeId} {slot : Operand} (slotFor : SlotFor types names name type slot code names') :
    code.WritesOwned env owns := by
  cases slotFor with
  | reused => exact .skip
  | new => exact .of_no_instr (by simp [Code.parts])

theorem mem_slots_of_reusable {names : Names} {name : String} {type : TypeId} {slot : Operand}
    (found : names.reusable? name type = some slot) : slot ∈ names.slots := by
  obtain ⟨_, _, found⟩ := Option.bind_eq_some_iff.mp found
  obtain ⟨_, _, found⟩ := Option.bind_eq_some_iff.mp found
  obtain ⟨_, guarded, found⟩ := Option.bind_eq_some_iff.mp found
  cases found
  by_contra absent
  simp [guard, absent] at guarded

/-- The slot of a variable is owned like all other slots. -/
theorem SlotFor.owned {types : Registry} {names names' : Names} {name : String} {type : TypeId}
    {slot : Operand} (slotFor : SlotFor types names name type slot code names')
    (slots : ∀ slot ∈ names.slots, owns slot) (owned : code.Owned owns) :
    owns slot ∧ ∀ slot ∈ names'.slots, owns slot := by
  cases slotFor with
  | reused found => exact ⟨slots slot (mem_slots_of_reusable found), slots⟩
  | new =>
      have here : owns (.named (names.freeName name)) := Code.all_slot.mp owned _ rfl
      exact ⟨here, List.forall_mem_cons.mpr ⟨here, slots⟩⟩

theorem Leaves.writesOwned {names : Names} {value : Option Expr}
    (leaves : Leaves env names value code) : code.WritesOwned env owns := by
  cases leaves with
  | bare => exact .ret
  | dropped _ evaluates => exact evaluates.writesOwned.andThen .ret
  | result outcome valued evaluates loads =>
      exact evaluates.writesOwned.andThen (loads.writesOwned.andThen
        (.andThen (.instr (.result outcome valued)) .ret))

/-- The code of statements writes to storage that it allocates and to the slots of variables, all of
    which are owned. -/
theorem Lowers.writesOwned {work : Work} {names names' : Names} {ended : Bool}
    (lowers : Lowers env work names names' ended code) (slots : ∀ slot ∈ names.slots, owns slot) :
    code.WritesOwned env owns ∧ (code.Owned owns → ∀ slot ∈ names'.slots, owns slot) := by
  induction lowers with
  | assign evaluates loads slotFor =>
      refine ⟨evaluates.writesOwned.andThen (loads.writesOwned.andThen
        (slotFor.writesOwned.seq fun owned => .instr (.value (by simp) ?_))), fun owned => ?_⟩
      · exact (slotFor.owned slots owned).1
      · simp only [Code.Owned, Code.all_seq] at owned
        exact (slotFor.owned slots owned.2.2.1).2
  | noArms => exact ⟨.andThen .skip .jump, fun _ => slots⟩
  | ifChain _ ih => exact ih slots
  | whileLoop evaluates tests _ ih =>
      obtain ⟨writes, kept⟩ := ih slots
      refine ⟨.andThen .jump (.loop (evaluates.writesOwned.andThen tests.writesOwned)
        writes.leading), fun owned => kept ?_⟩
      simp only [Code.Owned, Code.all_seq, Code.all_loop] at owned
      exact (Code.all_leading (by simp [Part.allocates?])).mp owned.2.2.2
  | forLoop evaluates found resolved places slotFor _ _ releases ih =>
      have turn := fun owned => ih (slotFor.owned slots owned).2
      refine ⟨evaluates.writesOwned.andThen (places.writesOwned.andThen
        (slotFor.writesOwned.seq fun owned => .andThen (.andThen .jump (.loop ?_
          (turn owned).1.leading)) releases.writesOwned)), fun owned => ?_⟩
      · exact .instr (.advances found resolved (slotFor.owned slots owned).1)
      · simp only [Code.Owned, Code.all_seq, Code.all_loop] at owned
        obtain ⟨_, _, slotted, ⟨_, _, _, inner⟩, _⟩ := owned
        exact (turn slotted).2 ((Code.all_leading (by simp [Part.allocates?])).mp inner)
  | ret leaves => exact ⟨leaves.writesOwned, fun _ => slots⟩
  | effect evaluates => exact ⟨evaluates.writesOwned, fun _ => slots⟩
  | nil => exact ⟨.skip, fun _ => slots⟩
  | ends _ ih => exact ih slots
  | goesOn _ _ ih₁ ih₂ =>
      obtain ⟨writes, kept⟩ := ih₁ slots
      refine ⟨writes.seq fun owned => (ih₂ (kept owned)).1, fun owned => ?_⟩
      obtain ⟨owned₁, owned₂⟩ := Code.all_seq.mp owned
      exact (ih₂ (kept owned₁)).2 owned₂
  | otherwise _ ih =>
      obtain ⟨writes, kept⟩ := ih slots
      exact ⟨writes.leading, fun owned =>
        kept ((Code.all_leading (by simp [Part.allocates?])).mp owned)⟩
  | lastArm evaluates tests _ ih =>
      obtain ⟨writes, kept⟩ := ih slots
      refine ⟨.andThen (evaluates.writesOwned.andThen tests.writesOwned)
        (.fork writes.leading .skip), fun owned => kept ?_⟩
      simp only [Code.Owned, Code.all_seq, Code.all_fork] at owned
      exact (Code.all_leading (by simp [Part.allocates?])).mp owned.2.2.1
  | arm evaluates tests _ _ ih₁ ih₂ =>
      obtain ⟨writes, kept⟩ := ih₁ slots
      have owned_body : ∀ {code : Code} {ended : Bool} {source fin : BlockId},
          (code.leading ended source fin).Owned owns → code.Owned owns := fun owned =>
        (Code.all_leading (by simp [Part.allocates?])).mp owned
      refine ⟨.andThen (evaluates.writesOwned.andThen tests.writesOwned) ?_, fun owned => ?_⟩
      · intro owned
        obtain ⟨_, owned₁, owned₂⟩ := Code.all_fork.mp owned
        exact Code.WritesOwned.fork writes.leading (ih₂ (kept (owned_body owned₁))).1 owned
      · simp only [Code.Owned, Code.all_seq, Code.all_fork] at owned
        obtain ⟨_, _, owned₁, owned₂⟩ := owned
        exact (ih₂ (kept (owned_body owned₁))).2 owned₂

end Translation

end LlvmBackend
