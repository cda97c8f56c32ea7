import LlvmBackend.Proofs.Site.Valid

/-! # What lowering a piece of code leaves alone

A piece of code is built from the block in use on, in blocks of its own. The other blocks stay as
they are, and control leaves the piece only to blocks that were agreed on.
-/

namespace LlvmBackend

open Ir

/-- The name of the register that an instruction defines. -/
def Instr.localName? (instr : Instr) : Option String :=
  match instr.dest with
  | some (.named name) => some name
  | _ => none

namespace Site

/-- One site becomes another one while a piece of code is built that may jump to the given blocks.
    -/
structure Grows (exits : List BlockId) (site later : Site) : Prop where
  before : site.Valid
  after : later.Valid
  size : site.size ≤ later.size
  current : later.current = site.current ∨ site.size ≤ later.current
  outside : ∀ id, id < site.size → id ≠ site.current → later.table id = site.table id
  table : site.Le later
  /-- Merges are for blocks that the piece of code made itself. -/
  unmerged : site.Unmerged site.current → later.Unmerged site.current
  edges : ∀ id, id = site.current ∨ site.size ≤ id →
    ∀ target ∈ (later.table id).successors, site.size ≤ target ∨ target ∈ exits
  layout : ∃ new, later.layout = site.layout ++ new ∧ ∀ id ∈ new, site.size ≤ id
  /-- Named registers are the slots of variables. -/
  locals : later.instrs.filterMap Instr.localName? = site.instrs.filterMap Instr.localName?
  slots : ∃ new : List (String × IrType),
    later.slots = site.slots ++ new.map (fun slot => .alloca (.named slot.1) slot.2) ∧
      (new.map Prod.fst).Nodup ∧ ∀ name ∈ new.map Prod.fst, name ∉ site.used ∧ name ∈ later.used
  used : site.used ⊆ later.used

variable {site later : Site} {exits : List BlockId}

theorem Grows.refl (valid : site.Valid) (isOpen : site.Open) : Grows exits site site where
  before := valid
  after := valid
  size := Nat.le_refl _
  current := .inl rfl
  outside := fun _ _ _ => rfl
  table := .refl _
  unmerged := id
  edges := by
    intro id region target mem
    rcases region with rfl | le
    · rw [← block, successors_of_open isOpen] at mem
      cases mem
    · rw [successors_blank (valid.blank_of_size_le le).2] at mem
      cases mem
  layout := ⟨[], by simp⟩
  locals := rfl
  slots := ⟨[], by simp⟩
  used := fun _ mem => mem

namespace Grows

variable (grows : Grows exits site later)
include grows

theorem trans {exits' : List BlockId} {last : Site} (next : Grows exits' later last)
    (within : ∀ id ∈ exits', site.size ≤ id ∨ id ∈ exits) : Grows exits site last where
  before := grows.before
  after := next.after
  size := Nat.le_trans grows.size next.size
  current := by
    rcases next.current with eq | le
    · exact eq ▸ grows.current
    · exact .inr (Nat.le_trans grows.size le)
  outside := by
    intro id lt ne
    have ne' : id ≠ later.current := by
      rcases grows.current with eq | le
      · exact eq ▸ ne
      · exact Nat.ne_of_lt (Nat.lt_of_lt_of_le lt le)
    rw [next.outside id (Nat.lt_of_lt_of_le lt grows.size) ne', grows.outside id lt ne]
  table := grows.table.trans next.table
  unmerged := by
    intro unmerged
    by_cases eq : site.current = later.current
    · rw [eq] at unmerged ⊢
      exact next.unmerged (eq ▸ grows.unmerged (eq ▸ unmerged))
    · have lt := Nat.lt_of_lt_of_le grows.before.current_lt grows.size
      have same := next.outside _ lt eq
      simp only [Unmerged, same]
      exact grows.unmerged unmerged
  edges := by
    intro id region target mem
    by_cases region' : id = later.current ∨ later.size ≤ id
    · rcases next.edges id region' target mem with le | mem
      · exact .inl (Nat.le_trans grows.size le)
      · exact within target mem
    · obtain ⟨ne, lt⟩ := not_or.mp region'
      have := next.outside id (Nat.not_le.mp lt) ne
      exact grows.edges id region target (this ▸ mem)
  layout := by
    obtain ⟨new, eq, le⟩ := grows.layout
    obtain ⟨new', eq', le'⟩ := next.layout
    refine ⟨new ++ new', by rw [eq', eq, List.append_assoc], fun id mem => ?_⟩
    rcases List.mem_append.mp mem with mem | mem
    · exact le id mem
    · exact Nat.le_trans grows.size (le' id mem)
  locals := next.locals.trans grows.locals
  slots := by
    obtain ⟨new, eq, nodup, fresh⟩ := grows.slots
    obtain ⟨new', eq', nodup', fresh'⟩ := next.slots
    refine ⟨new ++ new', by simp [eq', eq], ?_, ?_⟩
    · rw [List.map_append]
      refine List.nodup_append.mpr ⟨nodup, nodup', fun a mem b mem' same => ?_⟩
      exact (fresh' b mem').1 (same ▸ (fresh a mem).2)
    · intro name mem
      rw [List.map_append] at mem
      rcases List.mem_append.mp mem with mem | mem
      · exact ⟨(fresh name mem).1, next.used (fresh name mem).2⟩
      · exact ⟨fun used => (fresh' name mem).1 (grows.used used), (fresh' name mem).2⟩
  used := fun _ mem => next.used (grows.used mem)

theorem mono {more : List BlockId} (sub : exits ⊆ more) : Grows more site later :=
  { grows with
    edges := fun id region target mem => (grows.edges id region target mem).imp_right (@sub _) }

theorem current_lt : site.current < later.size :=
  Nat.lt_of_lt_of_le grows.before.current_lt grows.size

/-- A block that was there without a place has no place unless the piece of code is to enter it. -/
theorem not_mem {id : BlockId} (lt : id < site.size) (new : id ∉ site.layout) :
    id ∉ later.layout := by
  obtain ⟨added, eq, le⟩ := grows.layout
  rw [eq, List.mem_append, not_or]
  exact ⟨new, fun mem => Nat.not_lt.mpr (le id mem) lt⟩

theorem mem {id : BlockId} (mem : id ∈ site.layout) : id ∈ later.layout := by
  obtain ⟨added, eq, _⟩ := grows.layout
  rw [eq]
  exact List.mem_append_left _ mem

theorem unmerged_of_ne {id : BlockId} (lt : id < site.size) (ne : id ≠ site.current)
    (unmerged : site.Unmerged id) : later.Unmerged id := by
  simpa [Unmerged, grows.outside id lt ne] using unmerged

/-- Only the blocks that were agreed on get new jumps into them. -/
theorem target_iff (isOpen : site.Open) {target : BlockId} (lt : target < site.size)
    (other : target ∉ exits) (id : BlockId) :
    target ∈ (later.table id).successors ↔ target ∈ (site.table id).successors := by
  by_cases region : id = site.current ∨ site.size ≤ id
  · refine iff_of_false (fun mem => ?_) (fun mem => ?_)
    · rcases grows.edges id region target mem with le | mem
      · exact Nat.not_lt.mpr le lt
      · exact other mem
    · rcases region with rfl | le
      · rw [← block, successors_of_open isOpen] at mem
        cases mem
      · rw [successors_blank (grows.before.blank_of_size_le le).2] at mem
        cases mem
  · obtain ⟨ne, lt⟩ := not_or.mp region
    rw [grows.outside id (Nat.not_le.mp lt) ne]

theorem put {instr : Instr} (takes : later.Takes instr) (unnamed : instr.localName? = none)
    (plain : instr.incoming? = none ∨ later.current ≠ site.current) :
    Grows exits site (later.put instr) where
  before := grows.before
  after := grows.after.put takes
  size := grows.size
  current := grows.current
  outside := by
    intro id lt ne
    have ne' : id ≠ later.current := by
      rcases grows.current with eq | le
      · exact eq ▸ ne
      · exact Nat.ne_of_lt (Nat.lt_of_lt_of_le lt le)
    rw [put_other _ _ _ ne', grows.outside id lt ne]
  table := grows.table.trans (takes.isOpen.le_put instr)
  unmerged := by
    intro unmerged instr' mem
    by_cases eq : site.current = later.current
    · rw [eq, put_here, List.mem_append, List.mem_singleton] at mem
      rcases mem with mem | rfl
      · exact grows.unmerged unmerged instr' (eq ▸ mem)
      · exact plain.resolve_right fun ne => ne eq.symm
    · rw [put_other _ _ _ eq] at mem
      exact grows.unmerged unmerged instr' mem
  edges := by
    intro id region target mem
    rw [put_successors] at mem
    exact grows.edges id region target mem
  layout := grows.layout
  locals := by
    rw [grows.after.put_instrs, List.filterMap_append, grows.locals]
    simp [unnamed]
  slots := grows.slots
  used := grows.used

theorem close (isOpen : later.Open) (terminator : Terminator)
    (free : ∀ target ∈ terminator.successors,
      0 < target ∧ target < later.size ∧ later.Unmerged target)
    (within : ∀ target ∈ terminator.successors, site.size ≤ target ∨ target ∈ exits) :
    Grows exits site (later.close terminator) where
  before := grows.before
  after := grows.after.close isOpen free
  size := grows.size
  current := grows.current
  outside := by
    intro id lt ne
    have ne' : id ≠ later.current := by
      rcases grows.current with eq | le
      · exact eq ▸ ne
      · exact Nat.ne_of_lt (Nat.lt_of_lt_of_le lt le)
    rw [close_other _ _ _ ne', grows.outside id lt ne]
  table := grows.table.trans (isOpen.le_close terminator)
  unmerged := by
    intro unmerged
    by_cases eq : site.current = later.current
    · have := grows.unmerged unmerged
      simp only [Unmerged, eq, close_here] at this ⊢
      exact this
    · simp only [Unmerged, close_other _ _ _ eq]
      exact grows.unmerged unmerged
  edges := by
    intro id region target mem
    by_cases eq : id = later.current
    · subst eq
      rw [close_successors] at mem
      exact within target mem
    · rw [close_other _ _ _ eq] at mem
      exact grows.edges id region target mem
  layout := grows.layout
  locals := by rw [grows.after.close_instrs, grows.locals]
  slots := grows.slots
  used := grows.used

theorem fresh (hint : String) : Grows exits site (later.fresh hint) where
  before := grows.before
  after := grows.after.fresh hint
  size := Nat.le_succ_of_le grows.size
  current := grows.current
  outside := by
    intro id lt ne
    have : id ≠ later.size := Nat.ne_of_lt (Nat.lt_of_lt_of_le lt grows.size)
    rw [fresh_other _ _ _ this, grows.outside id lt ne]
  table := by
    refine grows.table.trans fun id => ?_
    by_cases eq : id = later.size
    · subst eq
      have blank := grows.after.blank_of_size_le (Nat.le_refl later.size)
      exact ⟨by simp [blank.1], by simp [blank.2]⟩
    · rw [fresh_other _ _ _ eq]
      exact .refl _
  unmerged := by
    intro unmerged
    have : site.current ≠ later.size := Nat.ne_of_lt grows.current_lt
    simp only [Unmerged, fresh_other _ _ _ this]
    exact grows.unmerged unmerged
  edges := by
    intro id region target mem
    by_cases eq : id = later.size
    · simp [eq, Block.successors] at mem
    · rw [fresh_other _ _ _ eq] at mem
      exact grows.edges id region target mem
  layout := grows.layout
  locals := by rw [grows.after.fresh_instrs, grows.locals]
  slots := grows.slots
  used := grows.used

theorem enter {id : BlockId} (own : site.size ≤ id) (lt : id < later.size)
    (new : id ∉ later.layout) (closed : ¬ later.Open) : Grows exits site (later.enter id) where
  before := grows.before
  after := grows.after.enter lt new closed
  size := grows.size
  current := .inr own
  outside := grows.outside
  table := grows.table
  unmerged := grows.unmerged
  edges := grows.edges
  layout := by
    obtain ⟨added, eq, le⟩ := grows.layout
    refine ⟨added ++ [id], by rw [enter_layout _ _ new, eq, List.append_assoc], ?_⟩
    simpa [or_imp, forall_and] using ⟨le, own⟩
  locals := by rw [grows.after.enter_instrs new, grows.locals]
  slots := grows.slots
  used := grows.used

theorem slotted {name : String} (free : name ∉ later.used) (type : IrType) :
    Grows exits site (later.slotted name type) :=
  { grows with
    after := grows.after.slotted name type
    slots := by
      obtain ⟨new, eq, nodup, fresh⟩ := grows.slots
      refine ⟨new ++ [(name, type)], by simp [eq], ?_, ?_⟩
      · rw [List.map_append]
        refine List.nodup_append.mpr ⟨nodup, by simp, fun a mem b mem' same => ?_⟩
        have : b = name := by simpa using mem'
        exact free (this ▸ same ▸ (fresh a mem).2)
      · intro name' mem
        rw [List.map_append] at mem
        rcases List.mem_append.mp mem with mem | mem
        · exact ⟨(fresh name' mem).1, List.mem_cons_of_mem _ (fresh name' mem).2⟩
        · have : name' = name := by simpa using mem
          subst this
          exact ⟨fun used => free (grows.used used), List.mem_cons_self⟩
    used := fun _ mem => List.mem_cons_of_mem _ (grows.used mem) }

end Grows

end Site

end LlvmBackend
