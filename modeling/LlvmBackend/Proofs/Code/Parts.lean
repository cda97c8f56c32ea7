import LlvmBackend.Proofs.Build

/-! # Parts of code

What a piece of code is made of, without its structure. A site that the code was built at has these
parts and no others.
-/

namespace LlvmBackend

open Ir

/-- The storage that an instruction gives a value to. An iterator that says by its result whether it
    goes on gives its element through its last argument. -/
def Instr.gives? : Instr → Option Operand
  | .store _ dest => some dest
  | .call (some _) _ _ args => args.getLast?.map (·.operand)
  | _ => none

/-- What code is made of. -/
inductive Part where
  | instr (role : Role) (instr : Instr)
  | read (name : String) (rebound : Bool) (value : Value)
  | slot (name : String) (type : IrType)
  | ends (terminator : Terminator)

/-- The slot of a variable as an instruction. -/
def Part.slot? : Part → Option Instr
  | .slot name type => some (.alloca (.named name) type)
  | _ => none

/-- What a part defines. -/
def Part.dest : Part → Option Operand
  | .instr _ i => i.dest
  | _ => none

namespace Code

/-- The parts of code. -/
def parts : Code → List Part
  | .skip => []
  | .seq first second => first.parts ++ second.parts
  | .instr role i => [.instr role i]
  | .read name rebound value => [.read name rebound value]
  | .slot name type => [.slot name type]
  | .jump _ target => [.ends (.br target)]
  | .fork _ flag onTrue onFalse whenTrue whenFalse =>
    .ends (.condBr flag onTrue onFalse) :: (whenTrue.parts ++ whenFalse.parts)
  | .loop body fin test flag turn => test.parts ++ .ends (.condBr flag body fin) :: turn.parts
  | .ret value => [.ends (.ret value)]

/-- The slots of variables, as instructions. -/
def slots : Code → List Instr
  | .seq first second => first.slots ++ second.slots
  | .slot name type => [.alloca (.named name) type]
  | .fork _ _ _ _ whenTrue whenFalse => whenTrue.slots ++ whenFalse.slots
  | .loop _ _ test _ turn => test.slots ++ turn.slots
  | _ => []

/-- The slots of code are among its parts. -/
theorem slots_eq (code : Code) : code.slots = code.parts.filterMap Part.slot? := by
  induction code with
  | skip | instr | read | jump | ret | slot => rfl
  | seq _ _ ih₁ ih₂ => rw [slots, parts, List.filterMap_append, ih₁, ih₂]
  | fork _ _ _ _ _ _ ih₁ ih₂ =>
      rw [slots, parts, List.filterMap_cons_none rfl, List.filterMap_append, ih₁, ih₂]
  | loop _ _ _ _ _ ih₁ ih₂ =>
      rw [slots, parts, List.filterMap_append, List.filterMap_cons_none rfl, ih₁, ih₂]

/-- What code defines. -/
def dests (code : Code) : List Operand := code.parts.filterMap Part.dest

theorem mem_parts_sides {part : Part} {taken : Bool} {flag : Operand} {a b : BlockId}
    {first second : Code} :
    part ∈ (sides taken flag a b first second).parts ↔
      part = .ends (.sides taken flag a b) ∨ part ∈ first.parts ∨ part ∈ second.parts := by
  cases taken <;> simp [sides, parts, Terminator.sides, or_comm]

theorem branch_mem_parts {body fin : BlockId} {test turn : Code} {flag : Operand} :
    .ends (.condBr flag body fin) ∈ (loop body fin test flag turn).parts := by
  simp [parts]

end Code

/-! ## Parts of a site -/

namespace Site

/-- A site becomes another one by adding parts. -/
structure Adds (parts : List Part) (site later : Site) : Prop where
  instrs : ∀ id, ∀ i ∈ (later.table id).instrs,
    (∃ id', i ∈ (site.table id').instrs) ∨ ∃ role, .instr role i ∈ parts
  ends : ∀ id terminator, (later.table id).terminator = some terminator →
    (∃ id', (site.table id').terminator = some terminator) ∨ .ends terminator ∈ parts

variable {site later last : Site} {parts more : List Part}

namespace Adds

theorem refl : Adds [] site site where
  instrs := fun id _ mem => .inl ⟨id, mem⟩
  ends := fun id _ eq => .inl ⟨id, eq⟩

theorem trans (first : Adds parts site later) (second : Adds more later last) :
    Adds (parts ++ more) site last where
  instrs := by
    intro id i mem
    rcases second.instrs id i mem with ⟨id', mem⟩ | ⟨role, mem⟩
    · rcases first.instrs id' i mem with old | ⟨role, mem⟩
      · exact .inl old
      · exact .inr ⟨role, List.mem_append_left _ mem⟩
    · exact .inr ⟨role, List.mem_append_right _ mem⟩
  ends := by
    intro id terminator eq
    rcases second.ends id terminator eq with ⟨id', eq⟩ | mem
    · exact (first.ends id' terminator eq).imp_right (List.mem_append_left _)
    · exact .inr (List.mem_append_right _ mem)

theorem mono (adds : Adds parts site later) (sub : parts ⊆ more) : Adds more site later where
  instrs := fun id i mem => (adds.instrs id i mem).imp_right fun ⟨role, mem⟩ => ⟨role, sub mem⟩
  ends := fun id terminator eq => (adds.ends id terminator eq).imp_right (@sub _)

theorem put (role : Role) (i : Instr) : Adds [.instr role i] site (site.put i) where
  instrs := by
    intro id i' mem
    by_cases eq : id = site.current
    · subst eq
      rw [put_here, List.mem_append, List.mem_singleton] at mem
      rcases mem with mem | rfl
      · exact .inl ⟨_, mem⟩
      · exact .inr ⟨role, List.mem_singleton_self _⟩
    · exact .inl ⟨id, put_other _ _ _ eq ▸ mem⟩
  ends := by
    intro id terminator eq'
    by_cases eq : id = site.current
    · subst eq
      rw [put_here] at eq'
      exact .inl ⟨_, eq'⟩
    · exact .inl ⟨id, put_other _ _ _ eq ▸ eq'⟩

theorem close (terminator : Terminator) : Adds [.ends terminator] site (site.close terminator) where
  instrs := by
    intro id i mem
    by_cases eq : id = site.current
    · subst eq
      rw [close_here] at mem
      exact .inl ⟨_, mem⟩
    · exact .inl ⟨id, close_other _ _ _ eq ▸ mem⟩
  ends := by
    intro id terminator' eq'
    by_cases eq : id = site.current
    · subst eq
      rw [close_here] at eq'
      cases eq'
      exact .inr (List.mem_singleton_self _)
    · exact .inl ⟨id, close_other _ _ _ eq ▸ eq'⟩

theorem fresh (hint : String) : Adds [] site (site.fresh hint) where
  instrs := by
    intro id i mem
    by_cases eq : id = site.size
    · simp [eq] at mem
    · exact .inl ⟨id, fresh_other _ _ _ eq ▸ mem⟩
  ends := by
    intro id terminator eq'
    by_cases eq : id = site.size
    · simp [eq] at eq'
    · exact .inl ⟨id, fresh_other _ _ _ eq ▸ eq'⟩

theorem slotted (name : String) (type : IrType) :
    Adds [.slot name type] site (site.slotted name type) where
  instrs := fun id _ mem => .inl ⟨id, mem⟩
  ends := fun id _ eq => .inl ⟨id, eq⟩

theorem enter (id : BlockId) : Adds [] site (site.enter id) where
  instrs := fun id _ mem => .inl ⟨id, mem⟩
  ends := fun id _ eq => .inl ⟨id, eq⟩

theorem leave (terminator : Terminator) (id : BlockId) :
    Adds [.ends terminator] site (site.leave terminator id) :=
  (close terminator).trans (enter id)

theorem enterTwo (terminator : Terminator) (a b : String) :
    Adds [.ends terminator] site (site.enterTwo terminator a b) :=
  (fresh a).trans ((fresh b).trans (leave terminator site.size))

theorem enterThree (terminator : Terminator) (a b c : String) :
    Adds [.ends terminator] site (site.enterThree terminator a b c) :=
  (fresh a).trans ((fresh b).trans ((fresh c).trans (leave terminator site.size)))

end Adds

end Site

open Site

theorem Merge.adds {a b : BlockId} (merge : Merge a b s code t) : Adds code.parts s t := by
  induction merge with
  | skip => exact .refl
  | instr => exact .put _ _
  | seq _ _ ih₁ ih₂ => exact ih₁.trans ih₂

/-- Building code adds its parts. -/
theorem Build.adds {exit : Option BlockId} (build : Build exit s code t) : Adds code.parts s t := by
  induction build with
  | skip => exact .refl
  | read => exact Adds.refl.mono (by simp)
  | slot => exact .slotted _ _
  | instr => exact .put _ _
  | ret => exact .close _
  | seq _ _ _ ih₁ ih₂ => exact ih₁.trans ih₂
  | guard =>
      refine ((Adds.enterTwo _ _ _).trans ((Adds.put .release _).trans (Adds.leave _ _))).mono ?_
      simp [Code.parts]
  | @join s t u v first second merges taken flag a b c _ _ _ _ merge ih₁ ih₂ =>
      refine ((Adds.enterThree _ a b c).trans (ih₁.trans ((Adds.leave _ _).trans
        (ih₂.trans ((Adds.leave _ _).trans merge.adds))))).mono ?_
      intro part mem
      simp only [List.mem_append, List.mem_singleton] at mem
      simp only [Code.parts, List.mem_append, Code.mem_parts_sides, List.mem_singleton]
      tauto
  | loop _ _ _ ih₁ ih₂ =>
      refine ((Adds.enterThree _ _ _ _).trans (ih₁.trans ((Adds.leave _ _).trans
        (ih₂.trans (Adds.enter _))))).mono ?_
      simp [Code.parts]
  | chain _ ih => exact ((Adds.fresh _).trans (ih.trans (Adds.enter _))).mono (by simp)
  | lastArm _ ih =>
      refine ((Adds.fresh _).trans ((Adds.leave _ _).trans ih)).mono ?_
      simp [Code.parts]
  | arm _ _ ih₁ ih₂ =>
      refine ((Adds.enterTwo _ _ _).trans (ih₁.trans ((Adds.enter _).trans ih₂))).mono ?_
      simp [Code.parts]
  | leads _ _ ih => exact ih.trans (.close _)
  | returns _ _ ih => exact ih

theorem Merge.dest_eq_temp {a b : BlockId} (merge : Merge a b s code t) {role : Role} {i : Instr}
    (mem : .instr role i ∈ code.parts) {dest : Operand} (defines : i.dest = some dest) :
    ∃ n, dest = .temp n := by
  induction merge with
  | skip => cases mem
  | instr _ temp =>
      obtain ⟨-, rfl⟩ := Part.instr.inj (List.mem_singleton.mp mem)
      exact ⟨_, Option.some.inj (defines.symm.trans temp)⟩
  | seq _ _ ih₁ ih₂ => exact (List.mem_append.mp mem).elim ih₁ ih₂

/-- What the instructions of built code define are temporaries. -/
theorem Build.dest_eq_temp {exit : Option BlockId} (build : Build exit s code t) {role : Role}
    {i : Instr} (mem : .instr role i ∈ code.parts) {dest : Operand} (defines : i.dest = some dest) :
    ∃ n, dest = .temp n := by
  induction build with
  | skip | read | slot | ret => simp [Code.parts] at mem
  | instr _ temp =>
      obtain ⟨-, rfl⟩ := Part.instr.inj (List.mem_singleton.mp mem)
      rcases temp with none | temp
      · cases defines.symm.trans none
      · exact ⟨_, Option.some.inj (defines.symm.trans temp)⟩
  | seq _ _ _ ih₁ ih₂ => exact (List.mem_append.mp mem).elim ih₁ ih₂
  | guard _ none =>
      simp only [Code.parts, List.mem_cons, List.mem_append, List.not_mem_nil, reduceCtorEq,
        Part.instr.injEq, or_false, false_or] at mem
      rw [mem.2, none] at defines
      cases defines
  | join _ _ _ _ merge ih₁ ih₂ =>
      simp only [Code.parts, Code.mem_parts_sides, List.mem_append, List.mem_singleton, reduceCtorEq,
        or_false, false_or] at mem
      rcases mem with (mem | mem) | mem
      · exact ih₁ mem
      · exact ih₂ mem
      · exact merge.dest_eq_temp mem defines
  | loop _ _ _ ih₁ ih₂ | arm _ _ ih₁ ih₂ =>
      simp only [Code.parts, List.mem_append, List.mem_cons, List.not_mem_nil, reduceCtorEq,
        false_or] at mem
      exact mem.elim ih₁ ih₂
  | chain _ ih | returns _ _ ih => exact ih mem
  | lastArm _ ih | leads _ _ ih =>
      simp only [Code.parts, List.mem_append, List.mem_cons, List.not_mem_nil, reduceCtorEq,
        or_false, false_or] at mem
      exact ih mem

theorem Code.mem_slots_sides {slot : Instr} {taken : Bool} {flag : Operand} {a b : BlockId}
    {first second : Code} : slot ∈ (sides taken flag a b first second).slots ↔
      slot ∈ first.slots ∨ slot ∈ second.slots := by
  cases taken <;> simp [sides, slots, or_comm]

theorem Merge.slots_eq {a b : BlockId} (merge : Merge a b s code t) :
    t.slots = s.slots ∧ code.slots = [] := by
  induction merge with
  | skip | instr => simp [Code.slots]
  | seq _ _ ih₁ ih₂ => simp [ih₁, ih₂, Code.slots]

/-- Building code adds its slots. -/
theorem Build.mem_slots {exit : Option BlockId} (build : Build exit s code t) (slot : Instr) :
    slot ∈ t.slots ↔ slot ∈ s.slots ∨ slot ∈ code.slots := by
  induction build with
  | skip | read | slot | instr | ret | guard => simp [Code.slots]
  | seq _ _ _ ih₁ ih₂ => simp [ih₁, ih₂, Code.slots, or_assoc]
  | join _ _ _ _ merge ih₁ ih₂ =>
      obtain ⟨eq, none⟩ := merge.slots_eq
      rw [eq]
      simp [ih₁, ih₂, Code.slots, Code.mem_slots_sides, none, or_assoc]
  | loop _ _ _ ih₁ ih₂ => simp [ih₁, ih₂, Code.slots, or_assoc]
  | chain _ ih => exact ih
  | lastArm _ ih => simp [ih, Code.slots]
  | arm _ _ ih₁ ih₂ => simp [ih₁, ih₂, Code.slots, or_assoc]
  | leads _ _ ih => simp [ih, Code.slots]
  | returns _ _ ih => exact ih

/-! ## Code that stands somewhere -/

/-- An act is that of a part. -/
def Act.From (parts : List Part) : Act → Prop
  | .move role (.instr _ i) => .instr role i ∈ parts
  | .move _ (.jump _ target) => .ends (.br target) ∈ parts
  | .move _ (.branch _ flag _ _) => ∃ onTrue onFalse, .ends (.condBr flag onTrue onFalse) ∈ parts
  | .move _ (.ret _ value) => .ends (.ret value) ∈ parts
  | .read name rebound value => .read name rebound value ∈ parts

theorem Act.From.mono {parts more : List Part} {act : Act} (h : act.From parts)
    (sub : parts ⊆ more) : act.From more := by
  cases act with
  | read => exact sub h
  | move role move =>
      cases move with
      | instr | jump | ret => exact sub h
      | branch =>
          obtain ⟨onTrue, onFalse, mem⟩ := h
          exact ⟨onTrue, onFalse, sub mem⟩

/-- What is carried out are parts of the code. -/
theorem Exec.acts_from {p : Spot} {code : Code} {acts : List Act} {stop : Option Spot}
    (exec : Exec p code acts stop) : ∀ act ∈ acts, act.From code.parts := by
  induction exec with
  | skip | slot => simp
  | seq _ _ ih₁ ih₂ =>
      refine List.forall_mem_append.mpr ⟨fun act mem => ?_, fun act mem => ?_⟩
      · exact (ih₁ act mem).mono (List.subset_append_left _ _)
      · exact (ih₂ act mem).mono (List.subset_append_right _ _)
  | seqReturns _ ih => exact fun act mem => (ih act mem).mono (List.subset_append_left _ _)
  | instr | read | jump | ret => simp [Act.From, Code.parts]
  | forkTrue _ ih =>
      refine List.forall_mem_cons.mpr ⟨⟨_, _, List.mem_cons_self⟩, fun act mem => ?_⟩
      exact (ih act mem).mono (by simp [Code.parts])
  | forkFalse _ ih =>
      refine List.forall_mem_cons.mpr ⟨⟨_, _, List.mem_cons_self⟩, fun act mem => ?_⟩
      exact (ih act mem).mono (by simp [Code.parts])
  | loopEnds _ ih =>
      refine List.forall_mem_append.mpr ⟨fun act mem => ?_, ?_⟩
      · exact (ih act mem).mono (List.subset_append_left _ _)
      · exact List.forall_mem_singleton.mpr ⟨_, _, Code.branch_mem_parts⟩
  | loopTurns _ _ _ ih₁ ih₂ ih₃ =>
      refine List.forall_mem_append.mpr ⟨fun act mem => ?_, List.forall_mem_cons.mpr ⟨?_, ?_⟩⟩
      · exact (ih₁ act mem).mono (List.subset_append_left _ _)
      · exact ⟨_, _, Code.branch_mem_parts⟩
      · refine List.forall_mem_append.mpr ⟨fun act mem => ?_, ih₃⟩
        exact (ih₂ act mem).mono (by simp [Code.parts])
  | turnReturns _ _ ih₁ ih₂ =>
      refine List.forall_mem_append.mpr ⟨fun act mem => ?_, List.forall_mem_cons.mpr ⟨?_, ?_⟩⟩
      · exact (ih₁ act mem).mono (List.subset_append_left _ _)
      · exact ⟨_, _, Code.branch_mem_parts⟩
      · exact fun act mem => (ih₂ act mem).mono (by simp [Code.parts])
  | testReturns _ ih => exact fun act mem => (ih act mem).mono (List.subset_append_left _ _)

/-- The instructions of code that stands somewhere stand there. -/
theorem Laid.holds {table : Table} {marks : Spot → Prop} {p q : Spot} {code : Code}
    (laid : Laid table marks p code q) {role : Role} {i : Instr}
    (mem : .instr role i ∈ code.parts) : ∃ spot, table.Holds spot i := by
  induction laid with
  | skip | read | slot | jump | ret => simp [Code.parts] at mem
  | seq _ _ ih₁ ih₂ => exact (List.mem_append.mp mem).elim ih₁ ih₂
  | instr holds =>
      simp only [Code.parts, List.mem_singleton, Part.instr.injEq] at mem
      exact ⟨_, mem.2 ▸ holds⟩
  | fork _ _ _ _ ih₁ ih₂ =>
      simp only [Code.parts, List.mem_cons, reduceCtorEq, false_or, List.mem_append] at mem
      exact mem.elim ih₁ ih₂
  | loop _ _ _ _ ih₁ ih₂ =>
      simp only [Code.parts, List.mem_cons, reduceCtorEq, false_or, List.mem_append] at mem
      exact mem.elim ih₁ ih₂

/-- The terminators of code that stands somewhere stand there. -/
theorem Laid.ends {table : Table} {marks : Spot → Prop} {p q : Spot} {code : Code}
    (laid : Laid table marks p code q) {terminator : Terminator}
    (mem : .ends terminator ∈ code.parts) : ∃ spot, table.Ends spot terminator := by
  induction laid with
  | skip | read | slot | instr => simp [Code.parts] at mem
  | seq _ _ ih₁ ih₂ => exact (List.mem_append.mp mem).elim ih₁ ih₂
  | jump ends | ret ends =>
      simp only [Code.parts, List.mem_singleton, Part.ends.injEq] at mem
      exact ⟨_, mem ▸ ends⟩
  | fork ends _ _ _ ih₁ ih₂ =>
      simp only [Code.parts, List.mem_cons, List.mem_append, Part.ends.injEq] at mem
      rcases mem with rfl | mem | mem
      · exact ⟨_, ends⟩
      · exact ih₁ mem
      · exact ih₂ mem
  | loop _ ends _ _ ih₁ ih₂ =>
      simp only [Code.parts, List.mem_append, List.mem_cons, Part.ends.injEq] at mem
      rcases mem with mem | rfl | mem
      · exact ih₁ mem
      · exact ⟨_, ends⟩
      · exact ih₂ mem

end LlvmBackend
