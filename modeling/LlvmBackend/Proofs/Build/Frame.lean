import LlvmBackend.Proofs.Build
import LlvmBackend.Proofs.Site.Pending

/-! # What building code leaves alone

Every piece of code leaves the site valid, places all blocks that it creates and leaves the others
as they are (`Build.built`). For the rules with several ways, a course says where control stands in
between.
-/

namespace LlvmBackend

open Ir Site

/-- The result of building a piece of code. -/
structure Built (exit : Option BlockId) (site later : Site) : Prop where
  grows : Grows exit.toList site later
  placed : ∀ id, site.size ≤ id → id < later.size → id ∈ later.layout
  closed : exit.isSome → ¬ later.Open

variable {site : Site}

namespace Built

theorem of_same_size {later : Site} (grows : Grows [] site later) (eq : later.size = site.size) :
    Built none site later where
  grows := grows
  placed := fun _ le lt => absurd (eq ▸ lt) (Nat.not_lt.mpr le)
  closed := by simp

theorem instr {i : Instr} (valid : site.Valid) (isOpen : site.Open) (plain : i.incoming? = none)
    (dest : i.dest = none ∨ i.dest = some (.temp site.nextTemp)) :
    Built none site (site.put i) := by
  have takes : site.Takes i := by
    refine ⟨isOpen, fun n mem => ?_, by simp [plain]⟩
    rcases dest with dest | dest <;> simp_all [Instr.number?, Operand.temp?]
  have unnamed : i.localName? = none := by
    rcases dest with dest | dest <;> simp [Instr.localName?, dest]
  exact of_same_size ((Grows.refl valid isOpen).put takes unnamed (.inl plain)) rfl

theorem ret (valid : site.Valid) (isOpen : site.Open) (value : Option TypedOperand) :
    Built none site (site.close (.ret value)) :=
  of_same_size ((Grows.refl valid isOpen).close isOpen _ (by simp [Terminator.successors])
    (by simp [Terminator.successors])) rfl

theorem seq {exit : Option BlockId} {middle later : Site} (first : Built none site middle)
    (second : Built exit middle later) : Built exit site later where
  grows := by
    have start : Grows exit.toList site middle := first.grows.mono (by simp)
    exact start.trans second.grows fun _ mem => .inr mem
  placed := by
    intro id le lt
    rcases Nat.lt_or_ge id middle.size with lt' | le'
    · exact second.grows.mem (first.placed id le lt')
    · exact second.placed id le' lt
  closed := second.closed

end Built

/-! ## Courses -/

theorem mem_sides {taken : Bool} {flag : Operand} {first second id : BlockId} :
    id ∈ (Terminator.sides taken flag first second).successors ↔ id = first ∨ id = second := by
  cases taken <;> simp [Terminator.sides, Terminator.successors, or_comm]

/-- A new block is entered, from where control may leave to the given blocks. -/
structure Side (exits : List BlockId) (site start : Site) : Prop where
  grows : Grows exits site start
  isOpen : start.Open
  blank : start.block.instrs = []
  own : site.size ≤ start.current

theorem Side.enter {later : Site} {id : BlockId} {exits : List BlockId}
    (grows : Grows exits site later) (closed : ¬ later.Open) (own : site.size ≤ id)
    (wait : later.Pending id) : Side exits site (later.enter id) where
  grows := grows.enterOwn own wait closed
  isOpen := wait.open_enter grows.after
  blank := (grows.after.blank id wait.new).1
  own := own

theorem Side.spot {start : Site} {exits : List BlockId} (side : Side exits site start) :
    start.spot = .start start.current := by
  simp [Site.spot, Spot.start, side.blank]

/-- Control leaves a site for another one, where a number of blocks are new. -/
structure Passes (new : Nat) (site later : Site) (terminator : Terminator) : Prop where
  ends : later.table.Ends site.spot terminator
  le : site.Le later
  size : later.size = site.size + new
  layout : site.layout ⊆ later.layout

theorem Passes.of (isOpen : site.Open) (terminator : Terminator) (id : BlockId) :
    Passes 0 site (site.leave terminator id) terminator where
  ends := close_ends terminator
  le := isOpen.le_close terminator
  size := rfl
  layout := fun _ (mem : _ ∈ (site.close terminator).layout) => mem_enter mem

theorem Passes.fresh {new : Nat} {later : Site} {terminator : Terminator} {hint : String}
    (passes : Passes new (site.fresh hint) later terminator) (valid : site.Valid) :
    Passes (new + 1) site later terminator where
  ends := by
    have : site.current ≠ site.size := Nat.ne_of_lt valid.current_lt
    have spot : (site.fresh hint).spot = site.spot := by
      simp [Site.spot, block, fresh_other _ _ _ this]
    exact spot ▸ passes.ends
  le := by
    refine Table.Le.trans (fun id => ?_) passes.le
    by_cases eq : id = site.size
    · have blank := valid.blank_of_size_le (Nat.le_of_eq eq.symm)
      exact ⟨by simp [blank.1], by simp [blank.2]⟩
    · rw [fresh_other _ _ _ eq]
      exact .refl _
  size := by rw [passes.size, fresh_size]; omega
  layout := passes.layout

/-- The block in use is one where two ways have just met. -/
structure Meets (first second : BlockId) (base site : Site) : Prop where
  grows : Grows [] base site
  own : site.current ≠ base.current
  isOpen : site.Open
  led : ∀ i ∈ site.block.instrs, i.isPhi
  sources : ∀ source, source ∈ [first, second] ↔ site.current ∈ (site.table source).successors
  distinct : first ≠ second

theorem Merge.meets (merge : Merge first second s code t) (meets : Meets first second base s) :
    Meets first second base t ∧ t.size = s.size ∧ t.layout = s.layout := by
  induction merge with
  | skip => exact ⟨meets, rfl, rfl⟩
  | @instr incoming s i eq dest perm =>
      have takes : s.Takes i := by
        refine ⟨meets.isOpen, by simp [Instr.number?, dest, Operand.temp?], ?_⟩
        intro incoming' eq'
        cases eq.symm.trans eq'
        refine ⟨meets.led, perm.nodup_iff.mpr (by simpa using meets.distinct), fun source => ?_⟩
        exact perm.mem_iff.trans (meets.sources source)
      refine ⟨⟨meets.grows.put takes (by simp [Instr.localName?, dest]) (.inr meets.own), meets.own,
        (open_put i).mpr meets.isOpen, ?_, ?_, meets.distinct⟩, rfl, rfl⟩
      · simpa [block, or_imp, forall_and] using ⟨meets.led, Instr.isPhi_iff.mpr ⟨incoming, eq⟩⟩
      · intro source
        rw [put_successors]
        exact meets.sources source
  | seq _ _ ih₁ ih₂ =>
      obtain ⟨meets₁, size₁, layout₁⟩ := ih₁ meets
      obtain ⟨meets₂, size₂, layout₂⟩ := ih₂ meets₁
      exact ⟨meets₂, size₂.trans size₁, layout₂.trans layout₁⟩

theorem Merge.le (merge : Merge first second s code t) (isOpen : s.Open) : s.Le t ∧ t.Open := by
  induction merge with
  | skip => exact ⟨.refl _, isOpen⟩
  | instr => exact ⟨isOpen.le_put _, (open_put _).mpr isOpen⟩
  | seq _ _ ih₁ ih₂ =>
      obtain ⟨le₁, open₁⟩ := ih₁ isOpen
      obtain ⟨le₂, open₂⟩ := ih₂ open₁
      exact ⟨le₁.trans le₂, open₂⟩

/-- Three new blocks. -/
structure Three (site later : Site) : Prop where
  grows : Grows [] site later
  isOpen : later.Open
  size : later.size = site.size + 3
  first : later.Pending site.size
  second : later.Pending (site.size + 1)
  third : later.Pending (site.size + 2)
  free : ∀ source, site.size + 2 ∉ (later.table source).successors

theorem three (valid : site.Valid) (isOpen : site.Open) (a b c : String) :
    Three site (((site.fresh a).fresh b).fresh c) where
  grows := (((Grows.refl valid isOpen).fresh a).fresh b).fresh c
  isOpen := (open_fresh ((valid.fresh a).fresh b) c).mpr
    ((open_fresh (valid.fresh a) b).mpr ((open_fresh valid a).mpr isOpen))
  size := rfl
  first := ((valid.pending_fresh a).fresh b).fresh c
  second := ((valid.fresh a).pending_fresh b).fresh c
  third := ((valid.fresh a).fresh b).pending_fresh c
  free := ((valid.fresh a).fresh b).not_target_fresh c

/-- A way that was gone ends with a jump to where the other way comes to. -/
theorem leave {start later : Site} {fin : BlockId} (grows : Grows [] site start)
    (way : Built none start later) (isOpen : later.Open) (own : site.size ≤ fin)
    (wait : start.Pending fin) : Grows [] site (later.close (.br fin)) :=
  (grows.trans way.grows (by simp)).closeOwn isOpen _
    (by simpa [Terminator.successors] using ⟨own, wait.grows way.grows⟩)

/-- The two ways end in different blocks, and no other block leads to where they meet. -/
theorem sources {start₁ start₂ t u : Site} {fin : BlockId} (way₁ : Built none start₁ t)
    (way₂ : Built none start₂ u) (open₁ : start₁.Open) (open₂ : start₂.Open)
    (table : start₂.table = (t.close (.br fin)).table)
    (wait₁ : fin < start₁.size) (wait₂ : fin < start₂.size)
    (free : ∀ source, fin ∉ (start₁.table source).successors) (source : BlockId) :
    source ∈ [t.current, u.current] ↔ fin ∈ ((u.close (.br fin)).table source).successors := by
  by_cases eq₂ : source = u.current
  · subst eq₂
    simp [Block.successors, Terminator.successors]
  · rw [close_other _ _ _ eq₂, way₂.grows.target_iff open₂ wait₂ (by simp), table]
    by_cases eq₁ : source = t.current
    · subst eq₁
      simp [Block.successors, Terminator.successors]
    · rw [close_other _ _ _ eq₁, way₁.grows.target_iff open₁ wait₁ (by simp)]
      simp [eq₁, eq₂, free]

/-- The first way after a branch. -/
structure FirstWay (branch : Terminator) (site start : Site) : Prop where
  side : Side [] site start
  second : start.Pending (site.size + 1)
  third : start.Pending (site.size + 2)
  free : ∀ source, site.size + 2 ∉ (start.table source).successors
  current : start.current = site.size
  passes : Passes 3 site start branch

theorem FirstWay.of (valid : site.Valid) (isOpen : site.Open) (taken : Bool) (flag : Operand)
    (a b c : String) :
    FirstWay (.sides taken flag site.size (site.size + 1)) site
      (site.enterThree (.sides taken flag site.size (site.size + 1)) a b c) := by
  have new := three valid isOpen a b c
  have passes : Passes 3 site (site.enterThree (.sides taken flag site.size (site.size + 1)) a b c)
      (.sides taken flag site.size (site.size + 1)) :=
    (((Passes.of new.isOpen _ _).fresh ((valid.fresh a).fresh b)).fresh (valid.fresh a)).fresh valid
  have branched := new.grows.closeOwn
    new.isOpen (.sides taken flag site.size (site.size + 1)) (by
      intro target mem
      rcases mem_sides.mp mem with rfl | rfl
      · exact ⟨Nat.le_refl _, new.first⟩
      · exact ⟨Nat.le_succ _, new.second⟩)
  refine ⟨.enter branched (not_open_close _) (Nat.le_refl _) (new.first.close _),
    (new.second.close _).enter (by simp) new.first.new,
    (new.third.close _).enter (by simp) new.first.new, fun source mem => ?_, rfl, passes⟩
  by_cases here : source = (((site.fresh a).fresh b).fresh c).current
  · rw [enter_table, here, close_successors] at mem
    simp [mem_sides] at mem
  · rw [enter_table, close_other _ _ _ here] at mem
    exact new.free source mem

/-- The second way after a branch. -/
structure SecondWay (site t start : Site) : Prop where
  side : Side [] site start
  third : start.Pending (site.size + 2)
  apart : site.size + 1 ≠ t.current
  current : start.current = site.size + 1
  passes : Passes 0 t start (.br (site.size + 2))

theorem FirstWay.secondWay {branch : Terminator} {start t : Site}
    (first : FirstWay branch site start) (way : Built none start t) (isOpen : t.Open) :
    SecondWay site t (t.leave (.br (site.size + 2)) (site.size + 1)) := by
  have left := leave first.side.grows way isOpen (Nat.le_add_right _ 2) first.third
  have wait := first.second.grows way.grows
  exact {
    side := .enter left (not_open_close _) (Nat.le_succ _) (wait.close _)
    third := ((first.third.grows way.grows).close _).enter (by simp) wait.new
    apart := wait.ne_current way.grows.after
    current := rfl
    passes := .of isOpen _ _ }

/-- The course of two ways that meet again. -/
structure JoinCourse (branch : Terminator) (site start₁ t start₂ u start₃ : Site) : Prop where
  first : FirstWay branch site start₁
  way₁ : Built none start₁ t
  second : SecondWay site t start₂
  way₂ : Built none start₂ u
  side : Side [] site start₃
  meets : Meets t.current u.current site start₃
  current : start₃.current = site.size + 2
  passes : Passes 0 u start₃ (.br (site.size + 2))

theorem joinCourse {branch : Terminator} {start t u : Site} (first : FirstWay branch site start)
    (way₁ : Built none start t) (open₁ : t.Open)
    (way₂ : Built none (t.leave (.br (site.size + 2)) (site.size + 1)) u) (open₂ : u.Open) :
    JoinCourse branch site start t (t.leave (.br (site.size + 2)) (site.size + 1)) u
      (u.leave (.br (site.size + 2)) (site.size + 2)) := by
  have second := first.secondWay way₁ open₁
  have left := leave second.side.grows way₂ open₂ (Nat.le_add_right _ 2) second.third
  have wait := (second.third.grows way₂.grows).close (.br (site.size + 2))
  have side := Side.enter left (not_open_close _) (Nat.le_add_right _ 2) wait
  have meets : Meets t.current u.current site (u.leave (.br (site.size + 2)) (site.size + 2)) := by
    refine ⟨side.grows, ?_, side.isOpen, by simp [side.blank], ?_, ?_⟩
    · exact Nat.ne_of_gt (Nat.lt_of_lt_of_le first.side.grows.before.current_lt side.own)
    · exact sources way₁ way₂ first.side.isOpen second.side.isOpen rfl first.third.lt
        second.third.lt first.free
    · exact way₂.grows.exit_ne way₁.grows.after.current_lt (Ne.symm second.apart)
  exact ⟨first, way₁, second, way₂, side, meets, rfl, .of open₂ _ _⟩

theorem JoinCourse.built {branch : Terminator} {start₁ t start₂ u start₃ v : Site} {merges : Code}
    (course : JoinCourse branch site start₁ t start₂ u start₃)
    (merge : Merge t.current u.current start₃ merges v) : Built none site v := by
  obtain ⟨met, size, layout⟩ := merge.meets course.meets
  refine ⟨met.grows, fun id le lt => ?_, by simp⟩
  have size₁ := course.first.passes.size
  have size₂ := course.second.passes.size
  have size₃ := course.passes.size
  have entered₁ := course.first.side.grows.after.current_mem
  have entered₂ := course.second.side.grows.after.current_mem
  have entered₃ := course.side.grows.after.current_mem
  rw [course.first.current] at entered₁
  rw [course.second.current] at entered₂
  rw [course.current] at entered₃
  rw [layout]
  rcases Nat.lt_or_ge id start₁.size with lt' | le'
  · have : id = site.size ∨ id = site.size + 1 ∨ id = site.size + 2 := by omega
    rcases this with rfl | rfl | rfl
    · exact course.passes.layout (course.way₂.grows.mem (course.second.passes.layout
        (course.way₁.grows.mem entered₁)))
    · exact course.passes.layout (course.way₂.grows.mem entered₂)
    · exact entered₃
  rcases Nat.lt_or_ge id t.size with lt' | le'
  · exact course.passes.layout (course.way₂.grows.mem (course.second.passes.layout
      (course.way₁.placed id le' lt')))
  · exact course.passes.layout (course.way₂.placed id (by omega) (by omega))

/-- The test of a loop. -/
structure LoopTest (site start : Site) : Prop where
  side : Side [] site start
  second : start.Pending (site.size + 1)
  third : start.Pending (site.size + 2)
  unmerged : start.Unmerged site.size
  current : start.current = site.size
  passes : Passes 3 site start (.br site.size)

theorem LoopTest.of (valid : site.Valid) (isOpen : site.Open) (a b c : String) :
    LoopTest site (site.enterThree (.br site.size) a b c) := by
  have new := three valid isOpen a b c
  have passes : Passes 3 site (site.enterThree (.br site.size) a b c) (.br site.size) :=
    (((Passes.of new.isOpen _ _).fresh ((valid.fresh a).fresh b)).fresh (valid.fresh a)).fresh valid
  have jumped := new.grows.closeOwn new.isOpen (.br site.size)
    (by simpa [Terminator.successors] using new.first)
  exact {
    side := .enter jumped (not_open_close _) (Nat.le_refl _) (new.first.close _)
    second := (new.second.close _).enter (by simp) new.first.new
    third := (new.third.close _).enter (by simp) new.first.new
    unmerged := jumped.after.unmerged_of_not_mem new.first.new
    current := rfl
    passes }

/-- The turn of a loop, which goes back to the block that the test starts in. -/
structure LoopTurn (branch : Terminator) (site t start : Site) : Prop where
  side : Side [] site start
  back : start.Exit site.size
  third : start.Pending (site.size + 2)
  current : start.current = site.size + 1
  passes : Passes 0 t start branch

theorem LoopTest.turn {start t : Site} (test : LoopTest site start) (way : Built none start t)
    (isOpen : t.Open) (flag : Operand) :
    LoopTurn (.condBr flag (site.size + 1) (site.size + 2)) site t
      (t.leave (.condBr flag (site.size + 1) (site.size + 2)) (site.size + 1)) := by
  have wait₂ := test.second.grows way.grows
  have wait₃ := test.third.grows way.grows
  have branched := (test.side.grows.trans way.grows (by simp)).closeOwn
    isOpen (.condBr flag (site.size + 1) (site.size + 2))
    (by simpa [Terminator.successors] using ⟨wait₂, wait₃⟩)
  refine ⟨.enter branched (not_open_close _) (Nat.le_succ _) (wait₂.close _), ?_,
    (wait₃.close _).enter (by simp) wait₂.new, rfl, .of isOpen _ _⟩
  refine ⟨test.side.grows.before.size_pos, ?_, by simp, (unmerged_close _).mpr ?_⟩
  · have := way.grows.before.current_lt
    rw [test.current] at this
    exact Nat.lt_of_lt_of_le this way.grows.size
  · have := way.grows.unmerged (by rw [test.current]; exact test.unmerged)
    rwa [test.current] at this

/-- The course of a loop. -/
structure LoopCourse (branch : Terminator) (site start₁ t start₂ u : Site) : Prop where
  test : LoopTest site start₁
  way₁ : Built none start₁ t
  turn : LoopTurn branch site t start₂
  way₂ : Built (some site.size) start₂ u

theorem LoopCourse.wait {branch : Terminator} {start₁ t start₂ u : Site}
    (course : LoopCourse branch site start₁ t start₂ u) : u.Pending (site.size + 2) :=
  course.turn.third.grows course.way₂.grows

theorem LoopCourse.built {branch : Terminator} {start₁ t start₂ u : Site}
    (course : LoopCourse branch site start₁ t start₂ u) :
    Built none site (u.enter (site.size + 2)) := by
  have turned : Grows [] site u := course.turn.side.grows.trans course.way₂.grows (by simp)
  refine ⟨turned.enterOwn (Nat.le_add_right _ 2) course.wait (course.way₂.closed rfl), ?_, by simp⟩
  intro id le lt
  have size₁ := course.test.passes.size
  have size₂ := course.turn.passes.size
  have entered₁ := course.test.side.grows.after.current_mem
  have entered₂ := course.turn.side.grows.after.current_mem
  rw [course.test.current] at entered₁
  rw [course.turn.current] at entered₂
  rw [enter_size] at lt
  rcases Nat.lt_or_ge id start₁.size with lt' | le'
  · have : id = site.size ∨ id = site.size + 1 ∨ id = site.size + 2 := by omega
    rcases this with rfl | rfl | rfl
    · exact mem_enter (course.way₂.grows.mem (course.turn.passes.layout
        (course.way₁.grows.mem entered₁)))
    · exact mem_enter (course.way₂.grows.mem entered₂)
    · exact mem_enter_self _
  rcases Nat.lt_or_ge id t.size with lt' | le'
  · exact mem_enter (course.way₂.grows.mem (course.turn.passes.layout
      (course.way₁.placed id le' lt')))
  · exact mem_enter (course.way₂.placed id (by omega) lt)

/-- The course of a chain of conditions, whose end waits for its place. -/
theorem chainCourse {fin : String} {t : Site} (valid : site.Valid) (isOpen : site.Open)
    (arms : (site.fresh fin).Valid → (site.fresh fin).Open → (site.fresh fin).Exit site.size →
      Built (some site.size) (site.fresh fin) t) :
    Grows [] site t ∧ t.Pending site.size ∧ Built (some site.size) (site.fresh fin) t := by
  have created : Grows [] site (site.fresh fin) := (Grows.refl valid isOpen).fresh fin
  have wait := valid.pending_fresh fin
  have way := arms created.after ((open_fresh valid fin).mpr isOpen) (wait.exit created.after)
  exact ⟨created.trans way.grows (by simp), wait.grows way.grows, way⟩

theorem Built.chain {fin : String} {t : Site} (valid : site.Valid) (isOpen : site.Open)
    (arms : (site.fresh fin).Valid → (site.fresh fin).Open → (site.fresh fin).Exit site.size →
      Built (some site.size) (site.fresh fin) t) :
    Built none site (t.enter site.size) := by
  obtain ⟨gone, wait, way⟩ := chainCourse valid isOpen arms
  refine ⟨gone.enterOwn (Nat.le_refl _) wait (way.closed rfl), ?_, by simp⟩
  intro id le lt
  rcases Nat.eq_or_lt_of_le le with rfl | lt'
  · exact mem_enter_self _
  · exact mem_enter (way.placed id lt' lt)

/-- A condition that is the last of a chain. -/
structure LastSuite (fin : BlockId) (branch : Terminator) (site start : Site) : Prop where
  side : Side [fin] site start
  exit : start.Exit fin
  current : start.current = site.size
  passes : Passes 1 site start branch

theorem LastSuite.of {fin : BlockId} (valid : site.Valid) (isOpen : site.Open)
    (exit : site.Exit fin) (flag : Operand) (a : String) :
    LastSuite fin (.condBr flag site.size fin) site
      ((site.fresh a).leave (.condBr flag site.size fin) site.size) := by
  have created : Grows [fin] site (site.fresh a) := (Grows.refl valid isOpen).fresh a
  have wait := valid.pending_fresh a
  have isOpen' := (open_fresh valid a).mpr isOpen
  have own := wait.exit created.after
  have branched := created.close isOpen' (.condBr flag site.size fin)
    (by
      intro target mem
      have exit := exit.fresh a
      have : target = site.size ∨ target = fin := by simpa [Terminator.successors] using mem
      rcases this with rfl | rfl
      · exact ⟨own.pos, own.lt, own.unmerged⟩
      · exact ⟨exit.pos, exit.lt, exit.unmerged⟩)
    (by simp [Terminator.successors])
  exact {
    side := .enter branched (not_open_close _) (Nat.le_refl _) (wait.close _)
    exit := (exit.fresh a).side (Nat.ne_of_lt exit.lt)
    current := rfl
    passes := (Passes.of isOpen' _ _).fresh valid }

theorem LastSuite.built {fin : BlockId} {branch : Terminator} {start t : Site}
    (arm : LastSuite fin branch site start) (way : Built (some fin) start t) :
    Built (some fin) site t := by
  refine ⟨arm.side.grows.trans way.grows (by simp), fun id le lt => ?_, way.closed⟩
  have size := arm.passes.size
  have entered := arm.side.grows.after.current_mem
  rw [arm.current] at entered
  rcases Nat.eq_or_lt_of_le le with rfl | lt'
  · exact way.grows.mem entered
  · exact way.placed id (by omega) lt

/-- A condition that other arms of a chain follow. -/
structure Suite (fin : BlockId) (branch : Terminator) (site start : Site) : Prop where
  side : Side [fin] site start
  exit : start.Exit fin
  otherwise : start.Pending (site.size + 1)
  fin : fin < site.size ∧ fin ≠ site.current ∧ site.Unmerged fin
  current : start.current = site.size
  passes : Passes 2 site start branch

theorem Suite.of {fin : BlockId} (valid : site.Valid) (isOpen : site.Open)
    (exit : site.Exit fin) (flag : Operand) (a b : String) :
    Suite fin (.condBr flag site.size (site.size + 1)) site
      (site.enterTwo (.condBr flag site.size (site.size + 1)) a b) := by
  have created : Grows [fin] site ((site.fresh a).fresh b) :=
    ((Grows.refl valid isOpen).fresh a).fresh b
  have wait₁ := (valid.pending_fresh a).fresh b
  have wait₂ := (valid.fresh a).pending_fresh b
  have isOpen' := (open_fresh (valid.fresh a) b).mpr ((open_fresh valid a).mpr isOpen)
  have branched := created.closeOwn isOpen' (.condBr flag site.size (site.size + 1))
    (by simpa [Terminator.successors] using ⟨wait₁, wait₂⟩)
  exact {
    side := .enter branched (not_open_close _) (Nat.le_refl _) (wait₁.close _)
    exit := ((exit.fresh a).fresh b).side (Nat.ne_of_lt exit.lt)
    otherwise := (wait₂.close _).enter (Nat.succ_ne_self _) wait₁.new
    fin := ⟨exit.lt, exit.ne, exit.unmerged⟩
    current := rfl
    passes := ((Passes.of isOpen' _ _).fresh (valid.fresh a)).fresh valid }

/-- What follows a condition of a chain when it does not hold. -/
structure Otherwise (fin : BlockId) (site start : Site) : Prop where
  side : Side [fin] site start
  exit : start.Exit fin
  current : start.current = site.size + 1

theorem Suite.rest {fin : BlockId} {branch : Terminator} {start₁ t : Site}
    (arm : Suite fin branch site start₁) (way : Built (some fin) start₁ t) :
    Otherwise fin site (t.enter (site.size + 1)) := by
  have gone : Grows [fin] site t := arm.side.grows.trans way.grows (by simp)
  obtain ⟨lt, ne, unmerged⟩ := arm.fin
  exact {
    side := .enter gone (way.closed rfl) (Nat.le_succ _) (arm.otherwise.grows way.grows)
    exit := ⟨arm.exit.pos, Nat.lt_of_lt_of_le lt gone.size, Nat.ne_of_lt (Nat.lt_succ_of_lt lt),
      gone.unmerged_of_ne lt ne unmerged⟩
    current := rfl }

theorem Suite.built {fin : BlockId} {branch : Terminator} {start₁ t u : Site}
    (arm : Suite fin branch site start₁) (way₁ : Built (some fin) start₁ t)
    (way₂ : Built (some fin) (t.enter (site.size + 1)) u) : Built (some fin) site u := by
  have other := arm.rest way₁
  refine ⟨other.side.grows.trans way₂.grows (by simp), fun id le lt => ?_, way₂.closed⟩
  have size₁ := arm.passes.size
  have entered₁ := arm.side.grows.after.current_mem
  rw [arm.current] at entered₁
  rcases Nat.lt_or_ge id start₁.size with lt' | le'
  · have : id = site.size ∨ id = site.size + 1 := by omega
    rcases this with rfl | rfl
    · exact way₂.grows.mem (mem_enter (way₁.grows.mem entered₁))
    · exact way₂.grows.mem (mem_enter_self _)
  rcases Nat.lt_or_ge id t.size with lt' | le''
  · exact way₂.grows.mem (mem_enter (way₁.placed id le' lt'))
  · exact way₂.placed id le'' lt

/-- The course of an instruction that is carried out only if a flag holds. -/
structure GuardCourse (branch : Terminator) (i : Instr) (site start₁ start₂ : Site) : Prop where
  side₁ : Side [] site start₁
  side₂ : Side [] site start₂
  current₁ : start₁.current = site.size
  current₂ : start₂.current = site.size + 1
  passes₁ : Passes 2 site start₁ branch
  passes₂ : Passes 0 (start₁.put i) start₂ (.br (site.size + 1))

theorem guardCourse {i : Instr} (flag : Operand) (a b : String) (valid : site.Valid)
    (isOpen : site.Open) (plain : i.incoming? = none) (dest : i.dest = none) :
    GuardCourse (.condBr flag site.size (site.size + 1)) i site
      (site.enterTwo (.condBr flag site.size (site.size + 1)) a b)
      (((site.enterTwo (.condBr flag site.size (site.size + 1)) a b).put i).leave
        (.br (site.size + 1)) (site.size + 1)) := by
  have created : Grows [] site ((site.fresh a).fresh b) :=
    ((Grows.refl valid isOpen).fresh a).fresh b
  have wait₁ := (valid.pending_fresh a).fresh b
  have wait₂ := (valid.fresh a).pending_fresh b
  have isOpen' := (open_fresh (valid.fresh a) b).mpr ((open_fresh valid a).mpr isOpen)
  have branched := created.closeOwn isOpen' (.condBr flag site.size (site.size + 1))
    (by simpa [Terminator.successors] using ⟨wait₁, wait₂⟩)
  have side := Side.enter branched (not_open_close _) (Nat.le_refl _) (wait₁.close _)
  have wait₃ := (wait₂.close (.condBr flag site.size (site.size + 1))).enter
    (Nat.succ_ne_self site.size) wait₁.new
  have takes : Site.Takes _ i := ⟨side.isOpen, by simp [Instr.number?, dest], by simp [plain]⟩
  have carried := side.grows.put takes (by simp [Instr.localName?, dest]) (.inl plain)
  have isOpen₂ := (open_put i).mpr side.isOpen
  have left := carried.closeOwn isOpen₂ (.br (site.size + 1))
    (by simpa [Terminator.successors] using wait₃.put i)
  exact {
    side₁ := side
    side₂ := .enter left (not_open_close _) (Nat.le_succ _) ((wait₃.put i).close _)
    current₁ := rfl
    current₂ := rfl
    passes₁ := ((Passes.of isOpen' _ _).fresh (valid.fresh a)).fresh valid
    passes₂ := .of isOpen₂ _ _ }

theorem GuardCourse.built {branch : Terminator} {i : Instr} {start₁ start₂ : Site}
    (course : GuardCourse branch i site start₁ start₂) : Built none site start₂ := by
  refine ⟨course.side₂.grows, fun id le lt => ?_, by simp⟩
  have size₁ := course.passes₁.size
  have size₂ := course.passes₂.size
  have entered₁ := course.side₁.grows.after.current_mem
  have entered₂ := course.side₂.grows.after.current_mem
  rw [course.current₁] at entered₁
  rw [course.current₂] at entered₂
  rw [put_size] at size₂
  have : id = site.size ∨ id = site.size + 1 := by omega
  rcases this with rfl | rfl
  · exact course.passes₂.layout entered₁
  · exact entered₂

/-! ## All rules -/

theorem Built.leads {fin : BlockId} {t : Site} (exit : site.Exit fin) (way : Built none site t)
    (isOpen : t.Open) : Built (some fin) site (t.close (.br fin)) where
  grows := by
    refine (way.grows.mono (by simp)).close isOpen _ ?_ (by simp [Terminator.successors])
    have := way.grows.unmerged_of_ne exit.lt exit.ne exit.unmerged
    simpa [Terminator.successors] using
      ⟨exit.pos, Nat.lt_of_lt_of_le exit.lt way.grows.size, this⟩
  placed := way.placed
  closed := fun _ => not_open_close _

theorem Built.returns {fin : BlockId} {t : Site} (way : Built none site t) (closed : ¬ t.Open) :
    Built (some fin) site t where
  grows := way.grows.mono (by simp)
  placed := way.placed
  closed := fun _ => closed

/-- A piece of code that is built leaves the site valid and all other blocks as they were. -/
theorem Build.built {exit : Option BlockId} (build : Build exit s code t) (valid : s.Valid)
    (isOpen : s.Open) (allowed : ∀ fin ∈ exit, s.Exit fin) : Built exit s t := by
  induction build with
  | skip | read => exact .of_same_size (.refl valid isOpen) rfl
  | slot free => exact .of_same_size ((Grows.refl valid isOpen).slotted free _) rfl
  | instr plain dest => exact .instr valid isOpen plain dest
  | ret => exact .ret valid isOpen _
  | seq _ isOpen₁ _ ih₁ ih₂ =>
      have first := ih₁ valid isOpen (by simp)
      refine first.seq (ih₂ first.grows.after isOpen₁ fun fin mem => ?_)
      have exit := allowed fin mem
      exact exit.grows first.grows (first.grows.exit_ne exit.lt exit.ne)
  | guard plain dest => exact (guardCourse _ _ _ valid isOpen plain dest).built
  | @join _ t _ u _ _ s taken flag a b c _ open₁ _ open₂ merge ih₁ ih₂ =>
      have first := FirstWay.of valid isOpen taken flag a b c
      have way₁ := ih₁ first.side.grows.after first.side.isOpen (by simp)
      have second := first.secondWay way₁ open₁
      have way₂ := ih₂ second.side.grows.after second.side.isOpen (by simp)
      exact (joinCourse first way₁ open₁ way₂ open₂).built merge
  | @loop _ t flag _ u s a b c _ open₁ _ ih₁ ih₂ =>
      have test := LoopTest.of valid isOpen a b c
      have way₁ := ih₁ test.side.grows.after test.side.isOpen (by simp)
      have turn := test.turn way₁ open₁ flag
      have way₂ := ih₂ turn.side.grows.after turn.side.isOpen (by simpa using turn.back)
      exact LoopCourse.built ⟨test, way₁, turn, way₂⟩
  | chain _ ih =>
      exact .chain valid isOpen fun valid isOpen exit => ih valid isOpen (by simpa using exit)
  | @lastArm fin _ t s flag a _ ih =>
      have suite := LastSuite.of valid isOpen (allowed _ rfl) flag a
      exact suite.built (ih suite.side.grows.after suite.side.isOpen (by simpa using suite.exit))
  | @arm fin _ t _ u s flag a b _ _ ih₁ ih₂ =>
      have suite := Suite.of valid isOpen (allowed _ rfl) flag a b
      have way₁ := ih₁ suite.side.grows.after suite.side.isOpen (by simpa using suite.exit)
      have other := suite.rest way₁
      exact suite.built way₁
        (ih₂ other.side.grows.after other.side.isOpen (by simpa using other.exit))
  | leads _ open₁ ih => exact .leads (allowed _ rfl) (ih valid isOpen (by simp)) open₁
  | returns _ closed ih => exact .returns (ih valid isOpen (by simp)) closed

end LlvmBackend
