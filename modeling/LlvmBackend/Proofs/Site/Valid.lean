import LlvmBackend.Proofs.Site

/-! # Valid sites

What holds of the blocks of a function at any time while it is built, and why each change keeps it.
-/

namespace LlvmBackend

open Ir

namespace Site

/-- The blocks so far fit together, but for the terminator of the one in use. -/
structure Valid (site : Site) : Prop where
  /-- The block in use stands last. -/
  last : site.layout.getLast? = some site.current
  nodup : site.layout.Nodup
  placed_lt : ∀ id ∈ site.layout, id < site.size
  blank : ∀ id ∉ site.layout,
    (site.table id).instrs = [] ∧ (site.table id).terminator = none
  closed : ∀ id ∈ site.layout, id ≠ site.current → (site.table id).terminator.isSome
  targets : ∀ id, ∀ target ∈ (site.table id).successors, 0 < target ∧ target < site.size
  nextLabel : site.nextLabel = site.size
  entryLabel : (site.table 0).label = none
  labels : ∀ id, 0 < id → id < site.size → (site.table id).label = some s!"L{id}"
  /-- Merges stand first in their block. -/
  lead : ∀ id, (site.table id).instrs.Pairwise fun before after => after.isPhi → before.isPhi
  /-- A merge has one source for each block that control can come from. -/
  merges : ∀ id, ∀ instr ∈ (site.table id).instrs, ∀ incoming ∈ instr.incoming?,
    (incoming.map Prod.snd).Nodup ∧
      ∀ source, source ∈ incoming.map Prod.snd ↔ id ∈ (site.table source).successors
  nextTemp : 0 < site.nextTemp
  temps : site.instrs.filterMap Instr.number? = List.range' 1 (site.nextTemp - 1)

/-- A block takes no more jumps into it once it has a merge. -/
def Unmerged (site : Site) (id : BlockId) : Prop :=
  ∀ instr ∈ (site.table id).instrs, instr.incoming? = none

/-- An instruction can be added to the block in use: a temporary it defines is the next one, and a
    merge stands first and has one source for each block that control can come from. -/
structure Takes (site : Site) (instr : Instr) : Prop where
  isOpen : site.Open
  number : ∀ n ∈ instr.number?, n = site.nextTemp
  merge : ∀ incoming ∈ instr.incoming?,
    (∀ before ∈ site.block.instrs, before.isPhi) ∧ (incoming.map Prod.snd).Nodup ∧
      ∀ source, source ∈ incoming.map Prod.snd ↔ site.current ∈ (site.table source).successors

variable {site : Site}

theorem successors_of_open (isOpen : site.Open) : site.block.successors = [] := by
  simp only [Open] at isOpen
  simp [Block.successors, isOpen]

theorem successors_blank {id : BlockId} (blank : (site.table id).terminator = none) :
    (site.table id).successors = [] := by
  simp [Block.successors, blank]

@[simp] theorem put_successors (instr : Instr) (id : BlockId) :
    ((site.put instr).table id).successors = (site.table id).successors := by
  by_cases eq : id = site.current
  · subst eq
    simp [Block.successors, block]
  · simp [put_other _ _ _ eq]

theorem close_successors (terminator : Terminator) :
    ((site.close terminator).table site.current).successors = terminator.successors := by
  simp [Block.successors]

namespace Valid

variable (valid : site.Valid)
include valid

theorem current_mem : site.current ∈ site.layout := List.mem_of_getLast? valid.last

theorem current_lt : site.current < site.size := valid.placed_lt _ valid.current_mem

theorem size_pos : 0 < site.size := Nat.lt_of_le_of_lt (Nat.zero_le _) valid.current_lt

/-- Behind the blocks before it stands the block in use. -/
theorem layout_eq : ∃ before, site.layout = before ++ [site.current] ∧ site.current ∉ before := by
  obtain ⟨before, eq⟩ := List.getLast?_eq_some_iff.mp valid.last
  refine ⟨before, eq, fun mem => ?_⟩
  have nodup := valid.nodup
  rw [eq] at nodup
  exact (List.nodup_append.mp nodup).2.2 _ mem _ (by simp) rfl

theorem fresh_not_mem : site.size ∉ site.layout := fun mem => Nat.lt_irrefl _ (valid.placed_lt _ mem)

theorem blank_of_size_le {id : BlockId} (le : site.size ≤ id) :
    (site.table id).instrs = [] ∧ (site.table id).terminator = none :=
  valid.blank id fun mem => Nat.not_lt.mpr le (valid.placed_lt id mem)

/-- No jump leads to a block that does not exist. -/
theorem not_target {id : BlockId} (le : site.size ≤ id) (source : BlockId) :
    id ∉ (site.table source).successors := fun mem =>
  Nat.not_lt.mpr le (valid.targets source id mem).2

/-- A block without a place has no merge. -/
theorem unmerged_of_not_mem {id : BlockId} (new : id ∉ site.layout) : site.Unmerged id := by
  simp [Unmerged, (valid.blank id new).1]

/-- Instructions added to the block in use stand behind all others. -/
theorem instrs_modify (change : Block → Block) {added : List Instr}
    (eq : (change site.block).instrs = site.block.instrs ++ added) :
    (site.modify change).instrs = site.instrs ++ added := by
  obtain ⟨before, layout, new⟩ := valid.layout_eq
  have unchanged : before.flatMap (fun id => ((site.modify change).table id).instrs) =
      before.flatMap fun id => (site.table id).instrs := by
    refine List.flatMap_congr fun id mem => ?_
    have : id ≠ site.current := fun eq => new (eq ▸ mem)
    simp [modify, Function.update_of_ne this]
  have here : ((site.modify change).table site.current).instrs =
      (site.table site.current).instrs ++ added :=
    (congrArg Block.instrs (Function.update_self ..)).trans eq
  have layout' : (site.modify change).layout = before ++ [site.current] := layout
  simp only [instrs, layout', layout, List.flatMap_append, unchanged, List.flatMap_cons, here,
    List.flatMap_nil, List.append_nil, List.append_assoc]

theorem put_instrs (instr : Instr) : (site.put instr).instrs = site.instrs ++ [instr] :=
  valid.instrs_modify (fun block => { block with instrs := block.instrs ++ [instr] }) rfl

theorem close_instrs (terminator : Terminator) : (site.close terminator).instrs = site.instrs :=
  (valid.instrs_modify (fun block => { block with terminator := terminator })
    (List.append_nil _).symm).trans (List.append_nil _)

theorem fresh_instrs (hint : String) : (site.fresh hint).instrs = site.instrs := by
  refine List.flatMap_congr fun id mem => ?_
  have : id ≠ site.size := fun eq => valid.fresh_not_mem (eq ▸ mem)
  simp [fresh_other _ _ _ this]

theorem enter_instrs {id : BlockId} (new : id ∉ site.layout) :
    (site.enter id).instrs = site.instrs := by
  simp [instrs, enter_layout site id new, (valid.blank id new).1]

theorem put {instr : Instr} (takes : site.Takes instr) : (site.put instr).Valid where
  last := valid.last
  nodup := valid.nodup
  placed_lt := valid.placed_lt
  blank := by
    intro id new
    have : id ≠ site.current := fun eq => new (eq ▸ valid.current_mem)
    simpa [put_other _ _ _ this] using valid.blank id new
  closed := by
    intro id mem ne
    rw [put_other site _ _ ne]
    exact valid.closed id mem ne
  targets := by
    intro id
    simpa using valid.targets id
  nextLabel := valid.nextLabel
  entryLabel := by
    by_cases eq : site.current = 0
    · rw [← eq, put_here]
      exact (congrArg (fun id => (site.table id).label) eq).trans valid.entryLabel
    · rw [put_other _ _ _ (Ne.symm eq)]
      exact valid.entryLabel
  labels := by
    intro id pos lt
    by_cases eq : id = site.current
    · subst eq
      simpa [block] using valid.labels _ pos lt
    · simpa [put_other _ _ _ eq] using valid.labels id pos lt
  lead := by
    intro id
    by_cases eq : id = site.current
    · subst eq
      simp only [put_here]
      refine List.pairwise_append.mpr ⟨valid.lead _, by simp, ?_⟩
      intro before mem after last isPhi
      rw [List.mem_singleton.mp last] at isPhi
      obtain ⟨incoming, eq⟩ := Instr.isPhi_iff.mp isPhi
      exact (takes.merge incoming eq).1 before mem
    · simpa [put_other _ _ _ eq] using valid.lead id
  merges := by
    intro id instr' mem incoming eq'
    simp only [put_successors]
    by_cases eq : id = site.current
    · subst eq
      simp only [put_here, List.mem_append, List.mem_singleton] at mem
      rcases mem with mem | rfl
      · exact valid.merges _ instr' mem incoming eq'
      · exact (takes.merge incoming eq').2
    · rw [put_other _ _ _ eq] at mem
      exact valid.merges id instr' mem incoming eq'
  nextTemp := by
    have := valid.nextTemp
    simp only [Site.put]
    split <;> omega
  temps := by
    have pos := valid.nextTemp
    rw [valid.put_instrs, List.filterMap_append, valid.temps]
    cases number : instr.number? with
    | none => simp [Site.put, number]
    | some n =>
        cases takes.number n number
        have : site.nextTemp = 1 + (site.nextTemp - 1) := by omega
        simp only [Site.put, number, Option.isSome_some, if_true, List.filterMap_cons,
          List.filterMap_nil, Nat.add_sub_cancel]
        conv => rhs; rw [this, Nat.add_comm, List.range'_concat]
        simp [← this]

theorem close (isOpen : site.Open) {terminator : Terminator}
    (free : ∀ target ∈ terminator.successors,
      0 < target ∧ target < site.size ∧ site.Unmerged target) :
    (site.close terminator).Valid where
  last := valid.last
  nodup := valid.nodup
  placed_lt := valid.placed_lt
  blank := by
    intro id new
    have : id ≠ site.current := fun eq => new (eq ▸ valid.current_mem)
    simpa [close_other _ _ _ this] using valid.blank id new
  closed := by
    intro id mem ne
    rw [close_other site _ _ ne]
    exact valid.closed id mem ne
  targets := by
    intro id target mem
    by_cases eq : id = site.current
    · subst eq
      rw [close_successors] at mem
      exact ⟨(free target mem).1, (free target mem).2.1⟩
    · rw [close_other _ _ _ eq] at mem
      exact valid.targets id target mem
  nextLabel := valid.nextLabel
  entryLabel := by
    by_cases eq : site.current = 0
    · rw [← eq, close_here]
      exact (congrArg (fun id => (site.table id).label) eq).trans valid.entryLabel
    · rw [close_other _ _ _ (Ne.symm eq)]
      exact valid.entryLabel
  labels := by
    intro id pos lt
    by_cases eq : id = site.current
    · subst eq
      simpa [block] using valid.labels _ pos lt
    · simpa [close_other _ _ _ eq] using valid.labels id pos lt
  lead := by
    intro id
    by_cases eq : id = site.current
    · subst eq
      simpa [block] using valid.lead site.current
    · simpa [close_other _ _ _ eq] using valid.lead id
  merges := by
    intro id instr mem incoming eq'
    have mem' : instr ∈ (site.table id).instrs := by
      by_cases eq : id = site.current
      · subst eq
        simpa [block] using mem
      · simpa [close_other _ _ _ eq] using mem
    refine ⟨(valid.merges id instr mem' incoming eq').1, fun source => ?_⟩
    rw [(valid.merges id instr mem' incoming eq').2 source]
    by_cases eq : source = site.current
    · subst eq
      have before : id ∉ (site.table site.current).successors := by
        have := successors_of_open isOpen
        simp only [block] at this
        simp [this]
      have after : id ∉ terminator.successors := by
        intro target
        have := (free id target).2.2 instr mem'
        simp [this] at eq'
      rw [close_successors]
      exact iff_of_false before after
    · rw [close_other _ _ _ eq]
  nextTemp := valid.nextTemp
  temps := by
    rw [valid.close_instrs]
    exact valid.temps

theorem fresh (hint : String) : (site.fresh hint).Valid where
  last := valid.last
  nodup := valid.nodup
  placed_lt := fun id mem => Nat.lt_succ_of_lt (valid.placed_lt id mem)
  blank := by
    intro id new
    by_cases eq : id = site.size
    · simp [eq]
    · simpa [fresh_other _ _ _ eq] using valid.blank id new
  closed := by
    intro id mem ne
    have : id ≠ site.size := fun eq => valid.fresh_not_mem (eq ▸ mem)
    simpa [fresh_other _ _ _ this] using valid.closed id mem ne
  targets := by
    intro id target mem
    by_cases eq : id = site.size
    · simp [eq, Block.successors] at mem
    · rw [fresh_other _ _ _ eq] at mem
      have := valid.targets id target mem
      exact ⟨this.1, Nat.lt_succ_of_lt this.2⟩
  nextLabel := congrArg (· + 1) valid.nextLabel
  entryLabel := by
    have : 0 ≠ site.size := Nat.ne_of_lt valid.size_pos
    simpa [fresh_other _ _ _ this] using valid.entryLabel
  labels := by
    intro id pos lt
    by_cases eq : id = site.size
    · simp [eq, valid.nextLabel]
    · have : id < site.size := by
        simp only [fresh_size] at lt
        omega
      simpa [fresh_other _ _ _ eq] using valid.labels id pos this
  lead := by
    intro id
    by_cases eq : id = site.size
    · simp [eq]
    · simpa [fresh_other _ _ _ eq] using valid.lead id
  merges := by
    intro id instr mem incoming eq'
    by_cases eq : id = site.size
    · simp [eq] at mem
    · rw [fresh_other _ _ _ eq] at mem
      refine ⟨(valid.merges id instr mem incoming eq').1, fun source => ?_⟩
      rw [(valid.merges id instr mem incoming eq').2 source]
      by_cases eq : source = site.size
      · subst eq
        have := successors_blank (valid.blank_of_size_le (Nat.le_refl site.size)).2
        simp only [this, fresh_here]
        simp [Block.successors]
      · rw [fresh_other _ _ _ eq]
  nextTemp := valid.nextTemp
  temps := by
    rw [valid.fresh_instrs]
    exact valid.temps

theorem enter {id : BlockId} (lt : id < site.size) (new : id ∉ site.layout)
    (closed : ¬ site.Open) : (site.enter id).Valid where
  last := by simp [enter_layout site id new]
  nodup := by
    rw [enter_layout site id new]
    exact List.nodup_append.mpr ⟨valid.nodup, by simp, by
      intro a mem b last eq
      exact new (List.mem_singleton.mp last ▸ eq ▸ mem)⟩
  placed_lt := by
    rw [enter_layout site id new]
    simpa [or_imp, forall_and] using ⟨valid.placed_lt, lt⟩
  blank := by
    intro id' new'
    rw [enter_layout site id new] at new'
    exact valid.blank id' fun mem => new' (List.mem_append_left _ mem)
  closed := by
    intro id' mem ne
    rw [enter_layout site id new] at mem
    rcases List.mem_append.mp mem with mem | last
    · by_cases eq : id' = site.current
      · subst eq
        simpa [Open, block, Option.isSome_iff_ne_none] using closed
      · exact valid.closed id' mem eq
    · exact absurd (List.mem_singleton.mp last) ne
  targets := valid.targets
  nextLabel := valid.nextLabel
  entryLabel := valid.entryLabel
  labels := valid.labels
  lead := valid.lead
  merges := valid.merges
  nextTemp := valid.nextTemp
  temps := by
    rw [valid.enter_instrs new]
    exact valid.temps

theorem slotted (name : String) (type : IrType) : (site.slotted name type).Valid :=
  { valid with }

end Valid

end Site

end LlvmBackend
