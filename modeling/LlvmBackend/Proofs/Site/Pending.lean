import LlvmBackend.Proofs.Site.Grows

/-! # Blocks that wait for a place

A block is created before it is entered. Until then it is empty and other code does not touch it, so
jumps may lead there.
-/

namespace LlvmBackend

open Ir

namespace Site

/-- A block was created and has no place yet. -/
structure Pending (site : Site) (id : BlockId) : Prop where
  lt : id < site.size
  new : id ∉ site.layout

/-- Code may jump to a block. -/
structure Exit (site : Site) (id : BlockId) : Prop where
  pos : 0 < id
  lt : id < site.size
  ne : id ≠ site.current
  unmerged : site.Unmerged id

variable {site : Site} {id : BlockId}

theorem Valid.pending_fresh (valid : site.Valid) (hint : String) :
    (site.fresh hint).Pending site.size :=
  ⟨Nat.lt_succ_self _, valid.fresh_not_mem⟩

theorem Pending.fresh (pending : site.Pending id) (hint : String) : (site.fresh hint).Pending id :=
  ⟨Nat.lt_succ_of_lt pending.lt, pending.new⟩

theorem Pending.close (pending : site.Pending id) (terminator : Terminator) :
    (site.close terminator).Pending id :=
  ⟨pending.lt, pending.new⟩

theorem Pending.put (pending : site.Pending id) (instr : Instr) : (site.put instr).Pending id :=
  ⟨pending.lt, pending.new⟩

theorem Pending.enter {other : BlockId} (pending : site.Pending id) (ne : id ≠ other)
    (new : other ∉ site.layout) : (site.enter other).Pending id :=
  ⟨pending.lt, by simp [enter_layout site other new, pending.new, ne]⟩

theorem Pending.grows {later : Site} {exits : List BlockId} (pending : site.Pending id)
    (grows : Grows exits site later) : later.Pending id :=
  ⟨Nat.lt_of_lt_of_le pending.lt grows.size, grows.not_mem pending.lt pending.new⟩

theorem Pending.ne_current (pending : site.Pending id) (valid : site.Valid) : id ≠ site.current :=
  fun eq => pending.new (eq ▸ valid.current_mem)

theorem Pending.exit (pending : site.Pending id) (valid : site.Valid) : site.Exit id where
  pos := Nat.pos_of_ne_zero fun eq => pending.new (eq ▸ List.mem_cons_self)
  lt := pending.lt
  ne := pending.ne_current valid
  unmerged := valid.unmerged_of_not_mem pending.new

theorem Exit.grows {later : Site} {exits : List BlockId} (exit : site.Exit id)
    (grows : Grows exits site later) (ne : id ≠ later.current) : later.Exit id where
  pos := exit.pos
  lt := Nat.lt_of_lt_of_le exit.lt grows.size
  ne := ne
  unmerged := grows.unmerged_of_ne exit.lt exit.ne exit.unmerged

/-- A block that was there before a piece of code is not the one in use behind it. -/
theorem Grows.exit_ne {later : Site} {exits : List BlockId} (grows : Grows exits site later)
    (lt : id < site.size) (ne : id ≠ site.current) : id ≠ later.current := by
  rcases grows.current with eq | le
  · exact eq ▸ ne
  · exact Nat.ne_of_lt (Nat.lt_of_lt_of_le lt le)

theorem open_fresh (valid : site.Valid) (hint : String) :
    (site.fresh hint).Open ↔ site.Open := by
  have : site.current ≠ site.size := Nat.ne_of_lt valid.current_lt
  simp [Open, block, fresh_other _ _ _ this]

theorem not_open_close (terminator : Terminator) : ¬ (site.close terminator).Open := by
  simp [Open, block]

@[simp] theorem unmerged_close (terminator : Terminator) :
    (site.close terminator).Unmerged id ↔ site.Unmerged id := by
  by_cases eq : id = site.current
  · simp [eq, Unmerged, block]
  · simp [Unmerged, close_other _ _ _ eq]

theorem Exit.fresh (exit : site.Exit id) (hint : String) : (site.fresh hint).Exit id where
  pos := exit.pos
  lt := Nat.lt_succ_of_lt exit.lt
  ne := exit.ne
  unmerged := by simpa [Unmerged, fresh_other _ _ _ (Nat.ne_of_lt exit.lt)] using exit.unmerged

/-- Going on at another block leaves the ways out as they are. -/
theorem Exit.side {terminator : Terminator} {other : BlockId} (exit : site.Exit id)
    (ne : id ≠ other) : ((site.close terminator).enter other).Exit id where
  pos := exit.pos
  lt := exit.lt
  ne := ne
  unmerged := (unmerged_close terminator).mpr exit.unmerged

@[simp] theorem open_put (instr : Instr) : (site.put instr).Open ↔ site.Open := by
  simp [Open, block]

theorem Pending.open_enter (pending : site.Pending id) (valid : site.Valid) :
    (site.enter id).Open :=
  (valid.blank id pending.new).2

/-- Nothing jumps to a block that was just created. -/
theorem Valid.not_target_fresh (valid : site.Valid) (hint : String) (source : BlockId) :
    site.size ∉ ((site.fresh hint).table source).successors := by
  by_cases eq : source = site.size
  · simp [eq, Block.successors]
  · rw [fresh_other _ _ _ eq]
    exact valid.not_target (Nat.le_refl _) source

theorem mem_enter_self (id : BlockId) : id ∈ (site.enter id).layout := by
  by_cases mem : id ∈ site.layout
  · simp_all [enter, layout]
  · simp [enter_layout _ _ mem]

theorem mem_enter {other : BlockId} (mem : id ∈ site.layout) : id ∈ (site.enter other).layout := by
  by_cases old : other ∈ site.layout
  · simp_all [enter, layout]
  · simp [enter_layout _ _ old, mem]

/-- Control leaves a block to blocks of the piece of code that wait for a place. -/
theorem Grows.closeOwn {later : Site} {exits : List BlockId} (grows : Grows exits site later)
    (isOpen : later.Open) (terminator : Terminator)
    (own : ∀ target ∈ terminator.successors, site.size ≤ target ∧ later.Pending target) :
    Grows exits site (later.close terminator) := by
  refine grows.close isOpen terminator (fun target mem => ?_) fun target mem => .inl (own target mem).1
  have exit := (own target mem).2.exit grows.after
  exact ⟨exit.pos, exit.lt, exit.unmerged⟩

theorem Grows.enterOwn {later : Site} {exits : List BlockId} (grows : Grows exits site later)
    (own : site.size ≤ id) (pending : later.Pending id) (closed : ¬ later.Open) :
    Grows exits site (later.enter id) :=
  grows.enter own pending.lt pending.new closed

end Site

end LlvmBackend
