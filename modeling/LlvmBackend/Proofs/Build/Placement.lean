import LlvmBackend.Proofs.Build.Frame

/-! # Where built code stands

Code that is built at a site stands there in every function that the site becomes (`Build.lies`).
Which of its spots release values can be told from the spots alone.
-/

namespace LlvmBackend

open Ir Site

namespace Site

/-- Something stands at a spot. -/
def Filled (site : Site) (p : Spot) : Prop :=
  p.index < (site.table p.block).instrs.length ∨
    p.index = (site.table p.block).instrs.length ∧ (site.table p.block).terminator.isSome

variable {site later : Site} {p : Spot}

theorem Filled.le (filled : site.Filled p) (le : site.Le later) : later.Filled p := by
  rcases filled with lt | ⟨eq, closed⟩
  · exact .inl (Nat.lt_of_lt_of_le lt (le p.block).instrs.length_le)
  · obtain ⟨instrs, terminator⟩ := (le p.block).closed closed
    exact .inr ⟨by rw [instrs, eq], by rw [terminator, closed]⟩

theorem Open.not_filled (isOpen : site.Open) : ¬ site.Filled site.spot := by
  have isOpen : (site.table site.current).terminator = none := isOpen
  simp [Filled, spot, block, isOpen]

theorem filled_of_ends {terminator : Terminator} (ends : site.table.Ends p terminator) :
    site.Filled p :=
  .inr ⟨ends.1, by simp [ends.2]⟩

theorem filled_of_holds {instr : Instr} (holds : site.table.Holds p instr) : site.Filled p :=
  .inl holds.index_lt

end Site

/-- Where control stands behind a piece of code, if it gets there. -/
def Behind (exit : Option BlockId) (later : Site) (q : Spot) : Prop :=
  match exit with
  | none => later.Open → q = later.spot
  | some fin => q = .start fin

/-- A piece of code stands where it was built, in every function that its site becomes. -/
structure Lies (exit : Option BlockId) (site : Site) (code : Code) (later : Site)
    (released : Spot → Prop) : Prop where
  region : ∀ p, released p → later.Filled p ∧ ¬ site.Filled p
  laid : ∀ (table : Table) (marks : Spot → Prop) (q : Spot),
    later.table.Le table →
    (∀ p, later.Filled p → ¬ site.Filled p → (marks p ↔ released p)) →
    Behind exit later q → Laid table marks site.spot code q

namespace Lies

variable {site : Site}

theorem instr {i : Instr} (isOpen : site.Open) (role : Role) :
    Lies none site (.instr role i) (site.put i) fun p => p = site.spot ∧ role = .release where
  region := by
    rintro p ⟨rfl, _⟩
    exact ⟨filled_of_holds (put_holds i), isOpen.not_filled⟩
  laid := by
    intro table marks q final agree behind
    rw [behind ((open_put i).mpr isOpen), put_spot]
    refine .instr ((put_holds i).le final) ?_
    simpa using agree site.spot (filled_of_holds (put_holds i)) isOpen.not_filled

theorem ret (value : Option TypedOperand) :
    Lies none site (.ret value) (site.close (.ret value)) fun _ => False where
  region := by simp
  laid := fun _ _ _ final _ _ => .ret ((close_ends (.ret value)).le final)

theorem seq {exit : Option BlockId} {t u : Site} {first second : Code} {m₁ m₂ : Spot → Prop}
    (lies₁ : Lies none site first t m₁) (lies₂ : Lies exit t second u m₂) (le₁ : site.Le t)
    (le₂ : t.Le u) :
    Lies exit site (.seq first second) u fun p => m₁ p ∨ m₂ p where
  region := by
    rintro p (m | m)
    · exact ⟨(lies₁.region p m).1.le le₂, (lies₁.region p m).2⟩
    · exact ⟨(lies₂.region p m).1, fun filled => (lies₂.region p m).2 (filled.le le₁)⟩
  laid := by
    intro table marks q final agree behind
    refine .seq (lies₁.laid table marks t.spot (le₂.trans final) ?_ fun _ => rfl)
      (lies₂.laid table marks q final ?_ behind)
    · intro p filled blank
      rw [agree p (filled.le le₂) blank]
      exact or_iff_left fun m => (lies₂.region p m).2 filled
    · intro p filled blank
      rw [agree p filled fun old => blank (old.le le₁)]
      exact or_iff_right fun m => blank (lies₁.region p m).1

theorem guard {flag : Operand} {i : Instr} {start₁ start₂ : Site}
    (course : GuardCourse (.condBr flag site.size (site.size + 1)) i site start₁ start₂)
    (isOpen : site.Open) :
    Lies none site
      (.fork .release flag site.size (site.size + 1)
        (.seq (.instr .release i) (.jump site.size (site.size + 1))) .skip) start₂
      fun p => p = site.spot ∨ p = start₁.spot where
  region := by
    have carried : start₂.table.Holds start₁.spot i := (put_holds i).le course.passes₂.le
    have branch := (course.passes₁.ends.le (course.side₁.isOpen.le_put i)).le course.passes₂.le
    rintro p (rfl | rfl)
    · exact ⟨filled_of_ends branch, isOpen.not_filled⟩
    · exact ⟨filled_of_holds carried, fun filled =>
        course.side₁.isOpen.not_filled (filled.le course.passes₁.le)⟩
  laid := by
    intro table marks q final agree behind
    have le := (course.side₁.isOpen.le_put i).trans course.passes₂.le
    have branch := course.passes₁.ends.le le
    have carried : start₂.table.Holds start₁.spot i := (put_holds i).le course.passes₂.le
    have spot₁ : start₁.spot = .start site.size := by rw [course.side₁.spot, course.current₁]
    have spot₂ : q = .start (site.size + 1) := by
      rw [behind course.side₂.isOpen, course.side₂.spot, course.current₂]
    have jumped := course.passes₂.ends.le final
    rw [put_spot, spot₁] at jumped
    subst spot₂
    refine .fork (branch.le final) ?_ (.seq ?_ (.jump jumped)) .skip
    · simpa using agree site.spot (filled_of_ends branch) isOpen.not_filled
    · rw [← spot₁]
      refine .instr (carried.le final) ?_
      simpa using agree start₁.spot (filled_of_holds carried) fun filled =>
        course.side₁.isOpen.not_filled (filled.le course.passes₁.le)

/-- The code of a branch to one of two sides. -/
theorem laid_sides {table : Table} {marks : Spot → Prop} {p q : Spot} {taken : Bool}
    {flag : Operand} {a b : BlockId} {first second : Code}
    (ends : table.Ends p (.sides taken flag a b)) (unmarked : ¬ marks p)
    (laid₁ : Laid table marks (.start a) first q) (laid₂ : Laid table marks (.start b) second q) :
    Laid table marks p (.sides taken flag a b first second) q := by
  cases taken with
  | true => exact .fork ends (iff_of_false unmarked (by simp)) laid₁ laid₂
  | false => exact .fork ends (iff_of_false unmarked (by simp)) laid₂ laid₁

/-- Merges stand where they were built. -/
theorem laid_merge {table : Table} {marks : Spot → Prop} {a b : BlockId} {s t : Site}
    {code : Code} (merge : Merge a b s code t) (isOpen : s.Open) (final : t.table.Le table)
    (unmarked : ∀ p, t.Filled p → ¬ s.Filled p → ¬ marks p) :
    Laid table marks s.spot code t.spot := by
  induction merge with
  | skip => exact .skip
  | @instr _ s i =>
      rw [put_spot]
      refine .instr ((put_holds i).le final) (iff_of_false ?_ (by simp))
      exact unmarked s.spot (filled_of_holds (put_holds i)) isOpen.not_filled
  | seq merge₁ merge₂ ih₁ ih₂ =>
      obtain ⟨le₁, open₁⟩ := merge₁.le isOpen
      obtain ⟨le₂, _⟩ := merge₂.le open₁
      refine .seq (ih₁ isOpen (le₂.trans final) ?_) (ih₂ open₁ final ?_)
      · exact fun p filled blank => unmarked p (filled.le le₂) blank
      · exact fun p filled blank => unmarked p filled fun old => blank (old.le le₁)

theorem join {taken : Bool} {flag : Operand} {start₁ t start₂ u start₃ v : Site}
    {first second merges : Code} {m₁ m₂ : Spot → Prop}
    (course : JoinCourse (.sides taken flag site.size (site.size + 1)) site start₁ t start₂ u start₃)
    (isOpen : site.Open)
    (lies₁ : Lies none start₁ first t m₁) (lies₂ : Lies none start₂ second u m₂)
    (merge : Merge t.current u.current start₃ merges v) :
    Lies none site
      (.seq (.sides taken flag site.size (site.size + 1)
        (.seq first (.jump t.current (site.size + 2)))
        (.seq second (.jump u.current (site.size + 2)))) merges) v
      fun p => m₁ p ∨ m₂ p := by
  obtain ⟨leMerge, _⟩ := merge.le course.side.isOpen
  have le₃ := course.passes.le.trans leMerge
  have le₂ := course.second.passes.le.trans (course.way₂.grows.table.trans le₃)
  have le₁ := course.way₁.grows.table.trans le₂
  have start₂Le := course.way₁.grows.table.trans course.second.passes.le
  have filledBefore : ∀ p, site.Filled p → start₁.Filled p := fun p filled =>
    filled.le course.first.passes.le
  constructor
  · rintro p (m | m)
    · exact ⟨(lies₁.region p m).1.le le₂, fun filled =>
        (lies₁.region p m).2 (filledBefore p filled)⟩
    · exact ⟨(lies₂.region p m).1.le le₃, fun filled =>
        (lies₂.region p m).2 ((filledBefore p filled).le start₂Le)⟩
  · intro table marks q final agree behind
    have branch := course.first.passes.ends
    have jump₁ := course.second.passes.ends.le (course.way₂.grows.table.trans (le₃.trans final))
    have jump₂ := course.passes.ends.le (leMerge.trans final)
    have spot₁ : start₁.spot = .start site.size := by rw [course.first.side.spot, course.first.current]
    have spot₂ : start₂.spot = .start (site.size + 1) := by
      rw [course.second.side.spot, course.second.current]
    have spot₃ : start₃.spot = .start (site.size + 2) := by
      rw [course.side.spot, course.current]
    have laid₁ := lies₁.laid table marks t.spot (le₂.trans final) (by
      intro p filled blank
      rw [agree p (filled.le le₂) fun old => blank (filledBefore p old)]
      exact or_iff_left fun m => (lies₂.region p m).2 (filled.le course.second.passes.le)) fun _ => rfl
    have laid₂ := lies₂.laid table marks u.spot (le₃.trans final) (by
      intro p filled blank
      rw [agree p (filled.le le₃) fun old => blank ((filledBefore p old).le start₂Le)]
      exact or_iff_right fun m => blank ((lies₁.region p m).1.le course.second.passes.le)) fun _ => rfl
    rw [spot₁] at laid₁
    rw [spot₂] at laid₂
    refine .seq (laid_sides (branch.le (le₁.trans final)) ?_
      (.seq laid₁ (.jump jump₁)) (.seq laid₂ (.jump jump₂))) ?_
    · rw [agree site.spot (filled_of_ends (branch.le le₁)) isOpen.not_filled]
      rintro (m | m)
      · exact (lies₁.region _ m).2 (filled_of_ends branch)
      · exact (lies₂.region _ m).2 ((filled_of_ends branch).le start₂Le)
    · rw [← spot₃, behind (merge.le course.side.isOpen).2]
      refine laid_merge merge course.side.isOpen final fun p filled blank => ?_
      rw [agree p filled fun old => blank
        (((filledBefore p old).le start₂Le).le (course.way₂.grows.table.trans course.passes.le))]
      rintro (m | m)
      · exact blank ((lies₁.region p m).1.le
          (course.second.passes.le.trans (course.way₂.grows.table.trans course.passes.le)))
      · exact blank ((lies₂.region p m).1.le course.passes.le)

theorem loop {flag : Operand} {start₁ t start₂ u : Site} {test turn : Code}
    {m₁ m₂ : Spot → Prop}
    (course : LoopCourse (.condBr flag (site.size + 1) (site.size + 2)) site start₁ t start₂ u)
    (open₁ : t.Open)
    (lies₁ : Lies none start₁ test t m₁) (lies₂ : Lies (some site.size) start₂ turn u m₂) :
    Lies none site
      (.seq (.jump site.current site.size) (.loop (site.size + 1) (site.size + 2) test flag turn))
      (u.enter (site.size + 2)) fun p => m₁ p ∨ m₂ p := by
  have le₂ := course.turn.passes.le.trans course.way₂.grows.table
  have start₂Le := course.way₁.grows.table.trans course.turn.passes.le
  have filledBefore : ∀ p, site.Filled p → start₁.Filled p := fun p filled =>
    filled.le course.test.passes.le
  constructor
  · rintro p (m | m)
    · exact ⟨(lies₁.region p m).1.le le₂, fun filled =>
        (lies₁.region p m).2 (filledBefore p filled)⟩
    · exact ⟨(lies₂.region p m).1, fun filled =>
        (lies₂.region p m).2 ((filledBefore p filled).le start₂Le)⟩
  · intro table marks q final agree behind
    have branch := course.turn.passes.ends
    have spot₁ : start₁.spot = .start site.size := by rw [course.test.side.spot, course.test.current]
    have spot₂ : start₂.spot = .start (site.size + 1) := by
      rw [course.turn.side.spot, course.turn.current]
    have spot₃ : q = .start (site.size + 2) := by
      have blank := course.way₂.grows.after.blank _ course.wait.new
      rw [behind (course.wait.open_enter course.way₂.grows.after)]
      simp [Site.spot, block, Spot.start, blank.1]
    have laid₁ := lies₁.laid table marks t.spot (le₂.trans final) (by
      intro p filled blank
      rw [agree p (filled.le le₂) fun old => blank (filledBefore p old)]
      exact or_iff_left fun m => (lies₂.region p m).2 (filled.le course.turn.passes.le)) fun _ => rfl
    have laid₂ := lies₂.laid table marks (.start site.size) final (by
      intro p filled blank
      rw [agree p filled fun old => blank ((filledBefore p old).le start₂Le)]
      exact or_iff_right fun m => blank ((lies₁.region p m).1.le course.turn.passes.le)) rfl
    rw [spot₁] at laid₁
    rw [spot₂] at laid₂
    subst spot₃
    refine .seq (.jump (course.test.passes.ends.le (start₂Le.trans (course.way₂.grows.table.trans final))))
      (.loop laid₁ (branch.le (course.way₂.grows.table.trans final)) ?_ laid₂)
    rw [agree t.spot (filled_of_ends (branch.le course.way₂.grows.table)) fun old =>
      open₁.not_filled ((filledBefore _ old).le course.way₁.grows.table)]
    rintro (m | m)
    · exact open₁.not_filled (lies₁.region _ m).1
    · exact (lies₂.region _ m).2 (filled_of_ends branch)

theorem chain {fin : String} {t : Site} {code : Code} {m : Spot → Prop} (valid : site.Valid)
    (wait : t.Pending site.size) (after : t.Valid)
    (lies : Lies (some site.size) (site.fresh fin) code t m) :
    Lies none site code (t.enter site.size) m := by
  have current : site.current ≠ site.size := Nat.ne_of_lt valid.current_lt
  have spot : (site.fresh fin).spot = site.spot := by
    simp [Site.spot, block, fresh_other _ _ _ current]
  have filled : ∀ p, (site.fresh fin).Filled p ↔ site.Filled p := by
    intro p
    by_cases eq : p.block = site.size
    · have blank := valid.blank_of_size_le (Nat.le_refl site.size)
      simp [Filled, eq, blank.1, blank.2]
    · simp [Filled, fresh_other _ _ _ eq]
  constructor
  · intro p mark
    exact ⟨(lies.region p mark).1, fun old => (lies.region p mark).2 ((filled p).mpr old)⟩
  · intro table marks q final agree behind
    have blank := after.blank _ wait.new
    have : q = .start site.size := by
      rw [behind (wait.open_enter after)]
      simp [Site.spot, block, Spot.start, blank.1]
    rw [← spot]
    exact lies.laid table marks q final
      (fun p new old => agree p new fun old' => old ((filled p).mpr old')) this

theorem lastArm {fin : BlockId} {flag : Operand} {start t : Site} {body : Code} {m : Spot → Prop}
    (suite : LastSuite fin (.condBr flag site.size fin) site start) (isOpen : site.Open)
    (way : Built (some fin) start t)
    (lies : Lies (some fin) start body t m) :
    Lies (some fin) site (.fork .plain flag site.size fin body .skip) t m := by
  constructor
  · intro p mark
    exact ⟨(lies.region p mark).1, fun old => (lies.region p mark).2 (old.le suite.passes.le)⟩
  · intro table marks q final agree behind
    have branch := suite.passes.ends
    have spot : start.spot = .start site.size := by rw [suite.side.spot, suite.current]
    have laid := lies.laid table marks q final
      (fun p filled blank => agree p filled fun old => blank (old.le suite.passes.le)) behind
    rw [spot] at laid
    subst behind
    refine .fork (branch.le (way.grows.table.trans final)) (iff_of_false ?_ (by simp)) laid
      .skip
    rw [agree site.spot (filled_of_ends (branch.le way.grows.table)) isOpen.not_filled]
    exact fun mark => (lies.region _ mark).2 (filled_of_ends branch)

theorem arm {fin : BlockId} {flag : Operand} {start t u : Site} {body rest : Code}
    {m₁ m₂ : Spot → Prop}
    (suite : Suite fin (.condBr flag site.size (site.size + 1)) site start) (isOpen : site.Open)
    (way₁ : Built (some fin) start t) (way₂ : Built (some fin) (t.enter (site.size + 1)) u)
    (lies₁ : Lies (some fin) start body t m₁)
    (lies₂ : Lies (some fin) (t.enter (site.size + 1)) rest u m₂) :
    Lies (some fin) site (.fork .plain flag site.size (site.size + 1) body rest) u
      fun p => m₁ p ∨ m₂ p := by
  have le₂ : t.Le (t.enter (site.size + 1)) := .refl _
  have le₁ := way₁.grows.table
  have filledBefore : ∀ p, site.Filled p → start.Filled p := fun p filled =>
    filled.le suite.passes.le
  constructor
  · rintro p (m | m)
    · exact ⟨((lies₁.region p m).1.le le₂).le way₂.grows.table, fun filled =>
        (lies₁.region p m).2 (filledBefore p filled)⟩
    · exact ⟨(lies₂.region p m).1, fun filled =>
        (lies₂.region p m).2 (((filledBefore p filled).le le₁).le le₂)⟩
  · intro table marks q final agree behind
    have branch := suite.passes.ends
    have spot₁ : start.spot = .start site.size := by rw [suite.side.spot, suite.current]
    have spot₂ : (t.enter (site.size + 1)).spot = .start (site.size + 1) := by
      rw [(suite.rest way₁).side.spot]
      rfl
    have leEnd := le₂.trans way₂.grows.table
    have laid₁ := lies₁.laid table marks q (leEnd.trans final) (by
      intro p filled blank
      rw [agree p (filled.le leEnd) fun old => blank (filledBefore p old)]
      exact or_iff_left fun m => (lies₂.region p m).2 (filled.le le₂)) behind
    have laid₂ := lies₂.laid table marks q final (by
      intro p filled blank
      rw [agree p filled fun old => blank (((filledBefore p old).le le₁).le le₂)]
      exact or_iff_right fun m => blank ((lies₁.region p m).1.le le₂)) behind
    rw [spot₁] at laid₁
    rw [spot₂] at laid₂
    have branch' := branch.le (le₁.trans leEnd)
    refine .fork (branch'.le final) (iff_of_false ?_ (by simp)) laid₁ laid₂
    rw [agree site.spot (filled_of_ends branch') isOpen.not_filled]
    rintro (m | m)
    · exact (lies₁.region _ m).2 (filled_of_ends branch)
    · exact (lies₂.region _ m).2 (filled_of_ends (branch.le (le₁.trans le₂)))

theorem leads {fin : BlockId} {t : Site} {body : Code} {m : Spot → Prop}
    (lies : Lies none site body t m) (isOpen : t.Open) :
    Lies (some fin) site (.seq body (.jump t.current fin)) (t.close (.br fin)) m := by
  have le := isOpen.le_close (.br fin)
  constructor
  · exact fun p mark => ⟨(lies.region p mark).1.le le, (lies.region p mark).2⟩
  · intro table marks q final agree behind
    subst behind
    refine .seq (lies.laid table marks t.spot (le.trans final) ?_ fun _ => rfl)
      (.jump ((close_ends (.br fin)).le final))
    exact fun p filled blank => agree p (filled.le le) blank

theorem returns {fin : BlockId} {t : Site} {body : Code} {m : Spot → Prop}
    (lies : Lies none site body t m) (closed : ¬ t.Open) : Lies (some fin) site body t m where
  region := lies.region
  laid := fun table marks q final agree _ =>
    lies.laid table marks q final agree fun isOpen => absurd isOpen closed

end Lies

/-- Code stands where it was built. -/
theorem Build.lies {exit : Option BlockId} (build : Build exit s code t) (valid : s.Valid)
    (isOpen : s.Open) (allowed : ∀ fin ∈ exit, s.Exit fin) :
    ∃ released, Lies exit s code t released := by
  induction build with
  | skip =>
      refine ⟨fun _ => False, by simp, fun _ _ q _ _ behind => ?_⟩
      rw [behind isOpen]
      exact .skip
  | read =>
      refine ⟨fun _ => False, by simp, fun _ _ q _ _ behind => ?_⟩
      rw [behind isOpen]
      exact .read
  | slot =>
      refine ⟨fun _ => False, by simp, fun _ _ q _ _ behind => ?_⟩
      rw [behind isOpen]
      exact .slot
  | instr => exact ⟨_, .instr isOpen _⟩
  | ret => exact ⟨_, .ret _⟩
  | seq build₁ isOpen₁ build₂ ih₁ ih₂ =>
      have first := build₁.built valid isOpen (by simp)
      have allowed' : ∀ fin ∈ _, Exit _ fin := fun fin mem =>
        (allowed fin mem).grows first.grows
          (first.grows.exit_ne (allowed fin mem).lt (allowed fin mem).ne)
      have second := build₂.built first.grows.after isOpen₁ allowed'
      obtain ⟨m₁, lies₁⟩ := ih₁ valid isOpen (by simp)
      obtain ⟨m₂, lies₂⟩ := ih₂ first.grows.after isOpen₁ allowed'
      exact ⟨_, lies₁.seq lies₂ first.grows.table second.grows.table⟩
  | guard plain dest => exact ⟨_, .guard (guardCourse _ _ _ valid isOpen plain dest) isOpen⟩
  | @join _ t _ u _ _ s taken flag a b c build₁ open₁ build₂ open₂ merge ih₁ ih₂ =>
      have first := FirstWay.of valid isOpen taken flag a b c
      have way₁ := build₁.built first.side.grows.after first.side.isOpen (by simp)
      have second := first.secondWay way₁ open₁
      have way₂ := build₂.built second.side.grows.after second.side.isOpen (by simp)
      obtain ⟨m₁, lies₁⟩ := ih₁ first.side.grows.after first.side.isOpen (by simp)
      obtain ⟨m₂, lies₂⟩ := ih₂ second.side.grows.after second.side.isOpen (by simp)
      exact ⟨_, .join (joinCourse first way₁ open₁ way₂ open₂) isOpen lies₁ lies₂ merge⟩
  | @loop _ t flag _ u s a b c build₁ open₁ build₂ ih₁ ih₂ =>
      have test := LoopTest.of valid isOpen a b c
      have way₁ := build₁.built test.side.grows.after test.side.isOpen (by simp)
      have turn := test.turn way₁ open₁ flag
      have way₂ := build₂.built turn.side.grows.after turn.side.isOpen (by simpa using turn.back)
      obtain ⟨m₁, lies₁⟩ := ih₁ test.side.grows.after test.side.isOpen (by simp)
      obtain ⟨m₂, lies₂⟩ := ih₂ turn.side.grows.after turn.side.isOpen (by simpa using turn.back)
      exact ⟨_, .loop ⟨test, way₁, turn, way₂⟩ open₁ lies₁ lies₂⟩
  | chain build ih =>
      obtain ⟨gone, wait, way⟩ := chainCourse valid isOpen
        fun valid isOpen exit => build.built valid isOpen (by simpa using exit)
      obtain ⟨m, lies⟩ := ih way.grows.before ((open_fresh valid _).mpr isOpen)
        (by simpa using (valid.pending_fresh _).exit way.grows.before)
      exact ⟨_, lies.chain valid wait gone.after⟩
  | @lastArm fin _ t s flag a build ih =>
      have suite := LastSuite.of valid isOpen (allowed _ rfl) flag a
      have way := build.built suite.side.grows.after suite.side.isOpen (by simpa using suite.exit)
      obtain ⟨m, lies⟩ := ih suite.side.grows.after suite.side.isOpen (by simpa using suite.exit)
      exact ⟨_, .lastArm suite isOpen way lies⟩
  | @arm fin _ t _ u s flag a b build₁ build₂ ih₁ ih₂ =>
      have suite := Suite.of valid isOpen (allowed _ rfl) flag a b
      have way₁ := build₁.built suite.side.grows.after suite.side.isOpen (by simpa using suite.exit)
      have other := suite.rest way₁
      have way₂ := build₂.built other.side.grows.after other.side.isOpen (by simpa using other.exit)
      obtain ⟨m₁, lies₁⟩ := ih₁ suite.side.grows.after suite.side.isOpen (by simpa using suite.exit)
      obtain ⟨m₂, lies₂⟩ := ih₂ other.side.grows.after other.side.isOpen (by simpa using other.exit)
      exact ⟨_, .arm suite isOpen way₁ way₂ lies₁ lies₂⟩
  | leads _ open₁ ih =>
      obtain ⟨m, lies⟩ := ih valid isOpen (by simp)
      exact ⟨_, lies.leads open₁⟩
  | returns _ closed ih =>
      obtain ⟨m, lies⟩ := ih valid isOpen (by simp)
      exact ⟨_, lies.returns closed⟩

end LlvmBackend
