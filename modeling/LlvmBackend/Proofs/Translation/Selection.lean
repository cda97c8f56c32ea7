import LlvmBackend.Proofs.Code.Ways
import LlvmBackend.Proofs.Selection
import LlvmBackend.Proofs.Translation.Custody.Expr
import LlvmBackend.Proofs.Translation.Parts
import LlvmBackend.Proofs.Translation.Traces

/-! # Selected leaves in code

On each way through the code of an expression the address of its value is that of the leaf that the
way selects, and the value is owned there if the leaf is the result of a call. The merges that the
code of connectives and of choices ends with carry both on together.
-/

namespace LlvmBackend

open Ir Reference
open Lowering (teardown Connective)

/-! ## Values in regions -/

/-- The numbered registers that a value is made of are in a region. -/
structure Value.Inside (region : List Nat) (v : Value) : Prop where
  storage : ∀ operand ∈ v.storage.operands, ∀ n, operand = .temp n → n ∈ region
  flag : ∀ n, v.binding.flag = .temp n → n ∈ region

/-- A value belongs to the function, and is made of no numbered registers. -/
def Value.Outer (v : Value) : Prop :=
  v.binding.owns = false ∧ ∀ operand ∈ v.storage.operands, operand.temp? = none

/-- What is looked up is such a value. -/
def Part.Outer : Part → Prop
  | .read _ _ v => v.Outer
  | _ => True

namespace Value

variable {region more : List Nat} {v : Value}

theorem Inside.mono (inside : v.Inside region) (sub : region ⊆ more) : v.Inside more where
  storage := fun operand mem n eq => sub (inside.storage operand mem n eq)
  flag := fun n eq => sub (inside.flag n eq)

theorem Inside.address (inside : v.Inside region) {address : Operand} (eq : v.address = some address) :
    ∀ n, address = .temp n → n ∈ region :=
  inside.storage address (mem_operands eq)

theorem inside_outer (outer : v.Outer) : v.Inside region where
  storage := by
    rintro _ mem n rfl
    cases outer.2 _ mem
  flag := by
    intro n eq
    rw [Translation.flag_of_not_owns outer.1] at eq
    cases eq

theorem inside_of_register {n : Nat} (mem : n ∈ region) (storage : v.storage.operands = [.temp n])
    (flag : ∀ m, v.binding.flag ≠ .temp m) : v.Inside region where
  storage := by
    rw [storage]
    simp only [List.mem_singleton]
    rintro _ rfl m eq
    cases eq
    exact mem
  flag := fun m eq => absurd eq (flag m)

end Value

/-! ## Leaves -/

/-- A leaf of an expression as a way selects it. -/
structure Leaf where
  expr : Expr
  value : Value
  /-- What comes before the leaf is evaluated. -/
  before : List Act
  /-- The evaluation of the leaf. -/
  own : List Act
  /-- What comes behind it up to the end of the expression. -/
  after : List Act
  /-- The address that the value of the expression has, if any. -/
  place : Option Operand

namespace Leaf

variable (leaf : Leaf)

/-- The way through the expression. -/
def acts : List Act := leaf.before ++ (leaf.own ++ leaf.after)

/-- The leaf of a larger expression. -/
def within (before after : List Act) : Leaf :=
  { leaf with before := before ++ leaf.before, after := leaf.after ++ after }

/-- The place is the address of the leaf: what this stood for where the leaf was evaluated, or a slot
    that the leaf was copied to later. -/
inductive Stands (course : Course) (acts : List Act) : Prop where
  | nowhere : leaf.value.address = none → leaf.place = none → Stands course acts
  | address :
      leaf.value.address = some address →
      leaf.place = some ((course.behind (leaf.before ++ leaf.own)).eval address) →
      Stands course acts
  | copy :
      leaf.value.storage = .direct operand →
      leaf.place = some (.temp n) →
      acts = leaf.before ++ (leaf.own ++ later) →
      Act.Copy operand n later →
      Stands course acts

/-- A value stands at the place of a leaf, and its consumer owns it or not. -/
structure Bears (types : Registry) (owned : Bool) (course : Course) (v : Value) : Prop where
  type : leaf.value.type = v.type
  address : ∀ place, leaf.place = some place → v.address.map course.eval = some place
  flag : (types.method v.type teardown).isSome → course.eval v.binding.flag = .bool owned
  placed : (types.method v.type teardown).isSome → owned → leaf.place ≠ none

/-- The call that tears the leaf down, if it is owned and has to be torn down. -/
def teardown? (types : Registry) (owned : Bool) : Option Instr :=
  if owned then do
    let entry ← types.method leaf.value.type teardown
    let place ← leaf.place
    return Translation.teardownCall types leaf.value.type entry place
  else none

variable {leaf} {types : Registry} {owned : Bool} {course later : Course} {v w : Value}

theorem acts_within (before after : List Act) :
    (leaf.within before after).acts = before ++ (leaf.acts ++ after) := by
  simp [within, acts]

theorem Stands.append {acts : List Act} (stands : leaf.Stands course acts) (more : List Act) :
    leaf.Stands course (acts ++ more) := by
  cases stands with
  | nowhere none none' => exact .nowhere none none'
  | address eq eq' => exact .address eq eq'
  | copy direct eq split copy => exact .copy direct eq (by simp [split]) (copy.append more)

theorem Stands.within {before acts : List Act} (stands : leaf.Stands (course.behind before) acts)
    (after : List Act) : (leaf.within before after).Stands course (before ++ acts) := by
  cases stands with
  | nowhere none none' => exact .nowhere none none'
  | address eq eq' => exact .address eq (by simpa [Leaf.within] using eq')
  | copy direct eq split copy => exact .copy direct eq (by simp [split, Leaf.within]) copy

/-- What is not defined in between does not matter. -/
theorem Bears.keeps {region more : List Nat} (bears : leaf.Bears types owned course v)
    (inside : v.Inside region) (keeps : course.Keeps more later) (apart : region.Disjoint more) :
    leaf.Bears types owned later v where
  type := bears.type
  address := by
    intro place eq
    rw [← bears.address place eq]
    cases found : v.address with
    | none => rfl
    | some address => exact congrArg some (keeps.eval (inside.address found) apart)
  flag := by
    intro disposable
    rw [keeps.eval inside.flag apart]
    exact bears.flag disposable
  placed := bears.placed

theorem Bears.within (bears : leaf.Bears types owned course v) (before after : List Act) :
    (leaf.within before after).Bears types owned course v :=
  ⟨bears.type, bears.address, bears.flag, bears.placed⟩

/-- Where a value stands and who owns it is all that counts. -/
theorem Bears.of_eval (bears : leaf.Bears types owned course v) (type : w.type = v.type)
    (address : w.address.map later.eval = v.address.map course.eval)
    (flag : (types.method v.type teardown).isSome →
      later.eval w.binding.flag = course.eval v.binding.flag) : leaf.Bears types owned later w where
  type := bears.type.trans type.symm
  address := fun place eq => address.trans (bears.address place eq)
  flag := by
    intro disposable
    rw [type] at disposable
    rw [flag disposable]
    exact bears.flag disposable
  placed := type ▸ bears.placed

theorem Bears.teardown?_eq {address : Operand} {entry : MethodEntry}
    (bears : leaf.Bears types owned course v) (found : v.address = some address)
    (method : types.method v.type teardown = some entry) :
    leaf.teardown? types owned = if owned then
      some (Translation.teardownCall types v.type entry (course.eval address)) else none := by
  unfold teardown?
  rw [bears.type, method]
  split
  · next isOwned =>
      obtain ⟨place, eq⟩ := Option.ne_none_iff_exists'.mp (bears.placed (by simp [method]) isOwned)
      have stands := bears.address place eq
      rw [found] at stands
      rw [eq, ← stands]
      rfl
  · rfl

theorem Bears.teardown?_eq_none (bears : leaf.Bears types owned course v)
    (other : ∀ address entry, v.address = some address → types.method v.type teardown = some entry →
      owned = false) : leaf.teardown? types owned = none := by
  unfold teardown?
  rw [bears.type]
  split
  · next isOwned =>
      cases method : types.method v.type teardown with
      | none => rfl
      | some entry =>
          cases eq : leaf.place with
          | none => rfl
          | some place =>
              obtain ⟨address, found, _⟩ := Option.map_eq_some_iff.mp (bears.address place eq)
              simp [other address entry found method] at isOwned
  · rfl

end Leaf

namespace Translation

/-- A way through the code of an expression, and what comes behind it: the value is that of a leaf,
    which the trace of the way selects. -/
structure Tracks (env : Surroundings) (names : Names) (course : Course) (e : Expr) (acts : List Act)
    (v : Value) (leaf : Leaf) : Prop where
  begins : leaf.acts <+: acts
  selects : Selects env.types env.signatures names.typing e (Act.trace leaf.acts) leaf.expr
    (Act.trace leaf.before) (Act.trace leaf.own)
  evaluates : ∃ code p q, Evaluates env names (.expr leaf.expr) [leaf.value] code ∧
    Exec p code leaf.own (some q)
  /-- A result that has to be torn down stands in a slot that the call for it got as its place. -/
  slot : (env.types.method leaf.value.type teardown).isSome → isResult leaf.expr →
    ∃ n, leaf.place = some (.temp n) ∧ HoldsResult n (Act.moves leaf.own)
  stands : leaf.Stands course acts
  bears : leaf.Bears env.types (isResult leaf.expr) (course.behind acts) v
  direct : leaf.place = none → v.address = none ∧ leaf.value = v

/-- A way through a connective whose operands have one type. If control moves on to the right operand
    and the left one is a result that has to be torn down, this is done once, behind the evaluation
    of the right operand and before the values meet. Otherwise nothing is torn down. -/
inductive Proceeds (env : Surroundings) (names : Names) (connective : Connective) (left right : Expr)
    (course : Course) : List Act → Prop where
  | right :
      Tracks env names course left onLeft l leaf →
      leaf.acts = onLeft →
      Act.trace testing = coercion env.types env.signatures l.type →
      Tracks env names
        (course.behind (onLeft ++ (testing ++ [.move .plain (.branch p flag (connective = .and) a)])))
        right onRight r leaf' →
      leaf'.acts = onRight →
      (course.behind (onLeft ++ (testing ++
        .move .plain (.branch p flag (connective = .and) a) :: onRight))).calls giving =
          (leaf.teardown? env.types (isResult leaf.expr)).toList →
      (course.behind (onLeft ++ (testing ++ .move .plain (.branch p flag (connective = .and) a) ::
        (onRight ++ giving)))).calls (.move .plain (.jump q join) :: meeting) = [] →
      Proceeds env names connective left right course (onLeft ++ (testing ++
        .move .plain (.branch p flag (connective = .and) a) ::
          (onRight ++ (giving ++ .move .plain (.jump q join) :: meeting))))
  | left :
      Tracks env names course left onLeft l leaf →
      leaf.acts = onLeft →
      Act.trace testing = coercion env.types env.signatures l.type →
      (course.behind (onLeft ++ (testing ++
        [.move .plain (.branch p flag (connective ≠ .and) b)]))).calls rest = [] →
      Proceeds env names connective left right course (onLeft ++ (testing ++
        .move .plain (.branch p flag (connective ≠ .and) b) :: rest))

/-- Arguments are evaluated from left to right, and each is tracked from its evaluation on. -/
inductive TracksAll (env : Surroundings) (names : Names) :
    Course → List Expr → List Act → List Value → List Leaf → Prop where
  | nil : TracksAll env names course [] [] [] []
  | cons :
      Tracks env names course e (leaf.acts ++ acts) v leaf →
      TracksAll env names (course.behind leaf.acts) es acts vs leaves →
      TracksAll env names course (e :: es) (leaf.acts ++ acts) (v :: vs) (leaf :: leaves)

/-- What holds of each way through the code of expressions. -/
def Phrase.Tracked (env : Surroundings) (names : Names) (course : Course) (vs : List Value)
    (acts : List Act) : Phrase → Prop
  | .expr e => ∀ v, vs = [v] → ∃ leaf : Leaf, leaf.acts = acts ∧ Tracks env names course e acts v leaf
  | .exprs es => ∃ leaves, TracksAll env names course es acts vs leaves

section

variable {types : Registry} {env : Surroundings} {names : Names} {course : Course} {v w : Value}
  {e : Expr} {acts : List Act} {leaf : Leaf} {code : Code} {region : List Nat}

theorem Tracks.keeps {more : List Act} {changed : List Nat}
    (tracks : Tracks env names course e acts v leaf) (inside : v.Inside region)
    (keeps : (course.behind acts).Keeps changed ((course.behind acts).behind more))
    (apart : region.Disjoint changed) : Tracks env names course e (acts ++ more) v leaf where
  begins := tracks.begins.trans (List.prefix_append _ _)
  selects := tracks.selects
  evaluates := tracks.evaluates
  slot := tracks.slot
  stands := tracks.stands.append more
  bears := by
    rw [Course.behind_append]
    exact tracks.bears.keeps inside keeps apart
  direct := tracks.direct

/-! ## Steps -/

theorem Places.inside {address : Operand} (places : Places types v code address w)
    (inside : v.Inside region) : w.Inside (region ++ code.temps) := by
  cases places with
  | addressed | cached => exact inside.mono (List.subset_append_left _ _)
  | @direct type operand binding n =>
      refine ⟨?_, fun m eq => List.mem_append_left _ (inside.flag m eq)⟩
      simp only [Storage.operands, List.mem_singleton]
      rintro _ rfl m eq
      cases eq
      simp [Code.temps, Instr.number?, Instr.dest, Operand.temp?]

/-- A value that gets an address stands there. -/
theorem Places.ways {address : Operand} (places : Places env.types v code address w)
    (tracks : Tracks env names course e acts v leaf) (inside : v.Inside region)
    (apart : region.Disjoint code.temps) :
    code.Ways (course.behind acts) fun more =>
      ∃ place, Tracks env names course e (acts ++ more) w { leaf with place := place } := by
  cases places with
  | addressed | cached =>
      apply Code.ways_skip
      exact ⟨leaf.place, by simpa using tracks⟩
  | @direct type operand binding n _ =>
      have none : leaf.place = none := by
        cases eq : leaf.place with
        | none => rfl
        | some place => cases tracks.bears.address place eq
      obtain ⟨_, same⟩ := tracks.direct none
      apply Code.ways_copy
      intro more copy value
      -- What has no address yet is no result that has to be torn down.
      have other : (env.types.method leaf.value.type teardown).isSome → ¬ isResult leaf.expr := by
        intro disposable result
        obtain ⟨_, eq, _⟩ := tracks.slot disposable result
        cases none.symm.trans eq
      obtain ⟨rest, begins⟩ := tracks.begins
      refine ⟨some (.temp n), tracks.begins.trans (List.prefix_append _ _), tracks.selects,
        tracks.evaluates, ?_, ?_, ?_, fun eq => by cases eq⟩
      · exact fun disposable result => absurd result (other disposable)
      · refine .copy (congrArg Value.storage same) rfl ?_ (copy.prepend (leaf.after ++ rest))
        simp [← begins, Leaf.acts]
      · have keeps : (course.behind acts).Keeps [n] ((course.behind acts).behind more) := by
          intro m other
          rw [value, Function.update_of_ne (by simpa using other)]
        have bears := tracks.bears.keeps inside keeps apart
        rw [Course.behind_append]
        refine ⟨bears.type, ?_, bears.flag,
          fun disposable result => absurd result (other (same ▸ disposable))⟩
        rintro _ ⟨⟩
        show some (Course.value _ n) = _
        rw [value, Function.update_self]

theorem Places.silent {address : Operand} (places : Places types v code address w) :
    code.All Part.Silent := by
  cases places <;> simp [Part.Silent, Instr.callee?]

theorem Owners.inside {type : TypeId} {first second : Binding × BlockId} {binding : Binding}
    (owners : Owners types type first second code binding) :
    ∀ n, binding.flag = .temp n → n ∈ code.temps := by
  intro n eq
  cases owners with
  | temporary | stable => cases eq
  | flag =>
      cases eq
      simp [Code.temps, Instr.number?, Instr.dest, Operand.temp?]

theorem Joins.inside {type : TypeId} {first second : Operand × Binding × BlockId}
    (joins : Joins types type first second code v) : v.Inside code.temps := by
  cases joins with
  | intro _ owners =>
      refine ⟨?_, fun m eq => List.mem_append_right _ (owners.inside m eq)⟩
      simp only [Storage.operands, List.mem_singleton]
      rintro _ rfl m eq
      cases eq
      simp [Code.temps, Instr.number?, Instr.dest, Operand.temp?]

theorem Joins.silent {type : TypeId} {first second : Operand × Binding × BlockId}
    (joins : Joins types type first second code v) : code.All Part.Silent := by
  cases joins with
  | intro _ owners => cases owners <;> simp [Part.Silent, Instr.callee?]

/-- A merged value is owned where the value is that came in. -/
theorem Owners.ways {type : TypeId} {first second : Binding × BlockId} {binding binding' : Binding}
    {block : BlockId} (owners : Owners types type first second code binding')
    (ne : first.2 ≠ second.2) (mem : (binding, block) = first ∨ (binding, block) = second)
    (source : course.source = some block) :
    code.Ways course fun more => (types.method type teardown).isSome →
      (course.behind more).eval binding'.flag = binding.flag.under course.entering := by
  cases owners with
  | temporary eq eq' =>
      apply Code.ways_skip
      intro _
      rcases mem with rfl | rfl
      · rw [show binding = .temporary from eq]
        rfl
      · rw [show binding = .temporary from eq']
        rfl
  | stable other =>
      apply Code.ways_skip
      intro disposable
      have eq : binding.owns = false := by
        rcases other with none | ⟨eq, eq'⟩
        · simp [Option.isNone_iff_eq_none.mp none] at disposable
        · rcases mem with rfl | rfl
          · exact eq
          · exact eq'
      rw [flag_of_not_owns eq]
      rfl
  | @flag n _ _ _ =>
      have arrives : (binding.flag, block) = (first.1.flag, first.2) ∨
          (binding.flag, block) = (second.1.flag, second.2) :=
        mem.imp (fun eq => by rw [← eq]) fun eq => by rw [← eq]
      refine Code.ways_merge arrives ne source ?_
      intro acts eq _
      rw [eq]
      exact Function.update_self ..

/-- A merge bears what the block has that control came from. -/
theorem Joins.ways {type : TypeId} {owned : Bool} {first second side : Operand × Binding × BlockId}
    (joins : Joins types type first second code v) (ne : first.2.2 ≠ second.2.2)
    (mem : side = first ∨ side = second) (source : course.source = some side.2.2)
    (entering : course.entering = course.value) (nodup : code.temps.Nodup)
    (bears : leaf.Bears types owned course ⟨type, .addressed side.1, side.2.1⟩) :
    code.Ways course fun more => leaf.Bears types owned (course.behind more) v := by
  obtain ⟨address, binding, block⟩ := side
  cases joins with
  | @intro owning binding' p _ owners =>
      obtain ⟨_, _, apart⟩ := List.nodup_append'.mp nodup
      have arrives : (address, block) = (first.1, first.2.2) ∨
          (address, block) = (second.1, second.2.2) :=
        mem.imp (fun eq => by rw [← eq]) fun eq => by rw [← eq]
      apply Code.ways_seq
      refine Code.ways_merge arrives ne source ?_
      intro merged eq
      have source : (course.behind merged).source = some block := by
        rw [eq]
        exact source
      refine (owners.ways ne (mem.imp (congrArg Prod.snd) (congrArg Prod.snd)) source).along ?_
      intro _ more _ exec flag
      refine bears.of_eval rfl ?_ ?_
      · have kept := exec.keeps (course.behind merged) p (apart (List.mem_singleton_self p))
        rw [Course.behind_append]
        show some (Course.value _ p) = some (course.eval address)
        rw [kept, eq]
        simp [Course.eval, entering]
      · intro disposable
        rw [Course.behind_append, flag disposable, eq, entering]
        rfl

/-! ## Teardowns -/

/-- Tearing a value down calls for its leaf if this is owned and has to be torn down. -/
theorem Releases.ways {owned : Bool} (releases : Releases types v code)
    (bears : leaf.Bears types owned course v) :
    code.Ways course fun acts => course.calls acts = (leaf.teardown? types owned).toList := by
  cases releases with
  | nothing other =>
      apply Code.ways_skip
      rw [bears.teardown?_eq_none]
      · rfl
      · intro address entry found method
        have flag := bears.flag (by simp [method])
        rw [flag_of_not_owns (other address entry found method)] at flag
        exact (Operand.bool.inj flag).symm
  | @always address entry found method binding =>
      have flag := bears.flag (by simp [method])
      rw [binding] at flag
      apply Code.ways_instr
      intro p
      rw [bears.teardown?_eq found method, if_pos (Operand.bool.inj flag).symm]
      rfl
  | @guarded address entry flag whenOwned fin found method binding =>
      have flag := bears.flag (by simp [method])
      rw [binding] at flag
      apply Code.ways_fork
      · intro mayBe p
        have isOwned : owned = true := by
          rw [← Bool.not_eq_false]
          intro eq
          exact mayBe (flag.trans (congrArg _ eq))
        apply Code.ways_seq
        apply Code.ways_instr
        intro q
        apply Code.ways_jump
        intro r _
        rw [bears.teardown?_eq found method, if_pos isOwned]
        rfl
      · intro mayBe p
        have other : ¬ owned = true := fun eq => mayBe (flag.trans (congrArg _ eq))
        apply Code.ways_skip
        rw [bears.teardown?_eq found method, if_neg other]
        rfl

/-! ## Forms with several ways -/

/-- Where a side of a branch ends, the merge is that of the side. -/
theorem Tracks.meets {type : TypeId} {first second side : Operand × Binding × BlockId}
    {merging : Code} {before : List Act} {part : Expr} {ending fin : BlockId}
    (tracks : Tracks env names (course.behind before) part acts w leaf)
    (found : w.address = some side.1) (binding : w.binding = side.2.1) (typed : w.type = type)
    (joins : Joins env.types type first second merging v) (ne : first.2.2 ≠ second.2.2)
    (mem : side = first ∨ side = second) (ends : side.2.2 = ending)
    (selects : Selects env.types env.signatures names.typing e
      (Act.trace before ++ Act.trace acts) leaf.expr (Act.trace before ++ Act.trace leaf.before)
      (Act.trace leaf.own))
    (nodup : merging.temps.Nodup) :
    (Code.seq (.jump ending fin) merging).Ways (course.behind (before ++ acts)) fun more =>
      (∃ leaf : Leaf, leaf.acts = before ++ (acts ++ more) ∧
        Tracks env names course e (before ++ (acts ++ more)) v leaf) ∧
      ∃ q meeting, more = .move .plain (.jump q fin) :: meeting ∧
        ∀ course : Course, course.calls meeting = [] := by
  refine Code.ways_seq (Code.ways_jump fun q source => ?_)
  have bears : leaf.Bears env.types (isResult leaf.expr)
      ((course.behind (before ++ acts)).behind [.move .plain (.jump q fin)])
      ⟨type, .addressed side.1, side.2.1⟩ := by
    rw [Course.behind_append]
    refine tracks.bears.of_eval typed.symm ?_ fun _ => ?_
    · rw [found]
      rfl
    · rw [binding]
      rfl
  refine (joins.ways ne mem (congrArg some (source.trans ends.symm)) rfl nodup bears).along ?_
  intro _ meeting _ exec bears
  obtain ⟨rest, begins⟩ := tracks.begins
  have silent : Act.trace meeting = [] := by
    have traces := exec.mem_traces
    rw [joins.traces.1] at traces
    exact traces.1
  have eq : (leaf.within before (rest ++ .move .plain (.jump q fin) :: meeting)).acts =
      before ++ (acts ++ .move .plain (.jump q fin) :: meeting) := by
    rw [Leaf.acts_within, ← begins, List.append_assoc]
  refine ⟨⟨_, eq, eq ▸ List.prefix_refl _, ?_, tracks.evaluates, tracks.slot,
    (tracks.stands.append _).within _, ?_, ?_⟩, q, meeting, rfl, exec.calls_eq_nil joins.silent⟩
  · rw [eq]
    simpa [Leaf.within, silent, Act.events] using selects
  · simpa [Leaf.within] using bears.within before (rest ++ .move .plain (.jump q fin) :: meeting)
  · intro none
    cases found.symm.trans (tracks.direct none).1

/-- A way has evaluated the left operand of a connective and tested it. -/
structure Tested (env : Surroundings) (names : Names) (left right : Expr) (course : Course) (l : Value)
    (leaf : Leaf) (tested : List Act) : Prop where
  typed : typeOf env.types env.signatures names.typing left = l.type
  alike : typeOf env.types env.signatures names.typing right =
    typeOf env.types env.signatures names.typing left
  tracks : Tracks env names course left leaf.acts l leaf
  held : Tracks env names course left (leaf.acts ++ tested) l leaf
  coerced : Act.trace tested = coercion env.types env.signatures l.type

section

variable {connective : Connective} {left right : Expr} {l r l' r' : Value} {tested before : List Act}
  {atRight placing releasing merging : Code} {flag address : Operand} {p : Spot} {taken : Bool}
  {target ending fin : BlockId} {first second : Operand × Binding × BlockId}

theorem Tested.tests (state : Tested env names left right course l leaf tested) :
    testTraces env.types env.signatures names.typing left
      (Act.trace leaf.acts ++ Act.trace tested) false :=
  .inl ⟨_, _, rfl, state.tracks.selects.traced, by rw [state.coerced, state.typed], rfl⟩

theorem Tested.enters (state : Tested env names left right course l leaf tested)
    (inside : l.Inside region)
    (eq : before = leaf.acts ++ (tested ++ [.move .plain (.branch p flag taken target)])) :
    Tracks env names course left before l leaf := by
  rw [eq, ← List.append_assoc]
  exact state.held.keeps inside (fun _ _ => rfl) (List.disjoint_nil_right _)

/-- Control moves on to the right operand. Behind it the left one is torn down if it is owned. -/
theorem Tested.ways_right (connective : Connective)
    (state : Tested env names left right course l leaf tested)
    (eq : before = leaf.acts ++
      (tested ++ [.move .plain (.branch p flag (connective = .and) target)]))
    (places : Places env.types r placing address r') (releases : Releases env.types l releasing)
    (joins : Joins env.types l.type first second merging v) (ne : first.2.2 ≠ second.2.2)
    (mem : (address, r.binding, ending) = second) (same : r.type = l.type)
    (inside : l.Inside region) (apart : region.Disjoint atRight.temps)
    (apart' : region.Disjoint placing.temps)
    (inside' : r.Inside atRight.temps) (beside : atRight.temps.Disjoint placing.temps)
    (nodup : merging.temps.Nodup)
    (ways : ∀ course, atRight.Ways course fun acts =>
      ∃ leaf : Leaf, leaf.acts = acts ∧ Tracks env names course right acts r leaf) :
    (Code.seq (.seq (.seq atRight (.seq placing releasing)) (.jump ending fin)) merging).Ways
      (course.behind before) fun acts =>
        (∃ leaf' : Leaf, leaf'.acts = before ++ acts ∧
          Tracks env names course (connective.expr left right) (before ++ acts) v leaf') ∧
        Proceeds env names connective left right course (before ++ acts) := by
  refine Code.ways_assoc.mpr (Code.ways_assoc.mpr (Code.ways_seq ((ways _).along ?_)))
  rintro _ _ _ exec ⟨leafRight, rfl, tracksRight⟩
  refine Code.ways_assoc.mpr (Code.ways_seq ((places.ways tracksRight inside' beside).along ?_))
  rintro _ giving _ exec' ⟨place, tracksPlaced⟩
  have held := ((state.enters inside eq).keeps inside (exec.keeps _) apart).keeps inside
    (exec'.keeps _) apart'
  rw [List.append_assoc] at held
  rw [← Course.behind_append, ← Course.behind_append]
  refine Code.ways_seq ((releases.ways held.bears).along ?_)
  intro _ torn _ exec'' calls
  have silent := exec'.mem_traces
  rw [places.traces] at silent
  have silent' := exec''.mem_traces
  rw [releases.traces] at silent'
  have tracksTorn := tracksPlaced.keeps (places.inside inside')
    (Course.behind_append _ _ ▸ exec''.keeps (course.behind (before ++ (leafRight.acts ++ giving))))
    (releases.temps ▸ List.disjoint_nil_right _)
  have selects : Selects env.types env.signatures names.typing (connective.expr left right)
      (Act.trace before ++ Act.trace (leafRight.acts ++ giving ++ torn)) leafRight.expr
      (Act.trace before ++ Act.trace leafRight.before) (Act.trace leafRight.own) := by
    have selects : Selects _ _ _ (connective.expr left right) _ _ _ _ :=
      .right state.alike state.tests tracksRight.selects
    simpa [eq, Act.events, silent.1, silent'.1] using selects
  rw [← Course.behind_append, List.append_assoc]
  refine (tracksTorn.meets places.address_eq places.binding_eq (places.type_eq.trans same) joins ne
    (.inr mem) rfl selects nodup).mono ?_
  rintro _ ⟨⟨leaf', eq', tracks⟩, q, meeting, rfl, none'⟩
  refine ⟨⟨leaf', by simpa using eq', by simpa using tracks⟩, ?_⟩
  have proceeds : Proceeds env names connective left right course (leaf.acts ++ (tested ++
      .move .plain (.branch p flag (connective = .and) target) ::
        (leafRight.acts ++ ((giving ++ torn) ++ .move .plain (.jump q fin) :: meeting)))) := by
    refine .right state.tracks rfl state.coerced (eq ▸ tracksRight) rfl ?_ (none' _)
    rw [Course.calls_append, exec'.calls_eq_nil places.silent]
    simpa [eq] using calls
  simpa [eq] using proceeds

/-- The left operand decides. -/
theorem Tested.ways_left (connective : Connective)
    (state : Tested env names left right course l leaf tested)
    (eq : before = leaf.acts ++
      (tested ++ [.move .plain (.branch p flag (!decide (connective = .and)) target)]))
    (places : Places env.types l placing address l')
    (joins : Joins env.types l.type first second merging v) (ne : first.2.2 ≠ second.2.2)
    (mem : (address, l.binding, ending) = first) (inside : l.Inside region)
    (apart : region.Disjoint placing.temps) (nodup : merging.temps.Nodup) :
    (Code.seq (.seq placing (.jump ending fin)) merging).Ways (course.behind before) fun acts =>
      (∃ leaf' : Leaf, leaf'.acts = before ++ acts ∧
        Tracks env names course (connective.expr left right) (before ++ acts) v leaf') ∧
      Proceeds env names connective left right course (before ++ acts) := by
  have entered := state.enters inside eq
  refine Code.ways_assoc.mpr (Code.ways_seq ((places.ways entered inside apart).along ?_))
  rintro _ placed _ exec ⟨place, tracksPlaced⟩
  have silent := exec.mem_traces
  rw [places.traces] at silent
  have selects : Selects env.types env.signatures names.typing (connective.expr left right)
      (Act.trace [] ++ Act.trace (before ++ placed)) leaf.expr
      (Act.trace [] ++ Act.trace leaf.before) (Act.trace leaf.own) := by
    have selects : Selects _ _ _ (connective.expr left right) _ _ _ _ :=
      .left state.alike state.tracks.selects
    simpa [eq, Act.events, silent.1, state.coerced, state.typed] using selects
  have meets := @Tracks.meets _ _ course _ _ _ _ _ _ _ _ _ _ [] _ ending fin tracksPlaced
    places.address_eq places.binding_eq places.type_eq joins ne (.inl mem) rfl selects nodup
  rw [← Course.behind_append]
  refine meets.mono ?_
  rintro _ ⟨⟨leaf', eq', tracks⟩, q, meeting, rfl, none⟩
  refine ⟨⟨leaf', by simpa using eq', by simpa using tracks⟩, ?_⟩
  have proceeds : Proceeds env names connective left right course (leaf.acts ++ (tested ++
      .move .plain (.branch p flag (connective ≠ .and) target) ::
        (placed ++ .move .plain (.jump q fin) :: meeting))) := by
    refine .left state.tracks rfl state.coerced ?_
    rw [Course.calls_append, exec.calls_eq_nil places.silent, Course.calls_jump, none]
    rfl
  simpa [eq] using proceeds

/-- Behind the test of the left operand. -/
theorem Decides.ways (decides : Decides env connective l r flag atRight code v)
    (same : r.type = l.type) (state : Tested env names left right course l leaf tested)
    (inside : l.Inside region) (apart : region.Disjoint code.temps) (nodup : code.temps.Nodup)
    (inside' : r.Inside atRight.temps)
    (ways : ∀ course, atRight.Ways course fun acts =>
      ∃ leaf : Leaf, leaf.acts = acts ∧ Tracks env names course right acts r leaf) :
    code.Ways (course.behind (leaf.acts ++ tested)) fun acts =>
      (∃ leaf' : Leaf, leaf'.acts = leaf.acts ++ (tested ++ acts) ∧
        Tracks env names course (connective.expr left right) (leaf.acts ++ (tested ++ acts)) v leaf') ∧
      Proceeds env names connective left right course (leaf.acts ++ (tested ++ acts)) := by
  cases decides with
  | flags other => exact absurd same other
  | @alike placing rightAddress right' releasing placing' leftAddress left' rightEnd skip merging _
      rightStart join same places releases places' ne joins =>
      have perm := temps_meet_perm (connective = .and) flag rightStart skip rightEnd skip join
        (.seq atRight (.seq placing releasing)) placing' merging
      replace nodup := perm.nodup_iff.mp nodup
      replace apart := List.disjoint_of_subset_right perm.symm.subset apart
      simp only [Code.temps, releases.temps, List.append_nil, List.nodup_append',
        List.disjoint_append_right] at nodup apart
      obtain ⟨⟨⟨_, _, beside⟩, _, _⟩, nodup, _⟩ := nodup
      obtain ⟨⟨⟨apart₁, apart₂⟩, apart₃⟩, _⟩ := apart
      refine Code.ways_meet (fun p => ?_) fun p => ?_
      · rw [← Course.behind_append, List.append_assoc]
        refine (state.ways_right connective rfl places releases joins ne.symm rfl same inside apart₁
          apart₂ inside' beside nodup ways).mono ?_
        simp
      · rw [← Course.behind_append, List.append_assoc]
        refine (state.ways_left connective rfl places' joins ne.symm rfl inside apart₃
          nodup).mono ?_
        simp

end

theorem Connects.ways {connective : Connective} {left right : Expr} {l r : Value}
    {atLeft atRight : Code} (connects : Connects env connective l r atLeft atRight code v)
    (typed : typeOf env.types env.signatures names.typing left = l.type)
    (typed' : typeOf env.types env.signatures names.typing right = r.type) (same : r.type = l.type)
    (nodup : code.temps.Nodup) (inside : l.Inside atLeft.temps) (inside' : r.Inside atRight.temps)
    (ways : ∀ course, atLeft.Ways course fun acts =>
      ∃ leaf : Leaf, leaf.acts = acts ∧ Tracks env names course left acts l leaf)
    (ways' : ∀ course, atRight.Ways course fun acts =>
      ∃ leaf : Leaf, leaf.acts = acts ∧ Tracks env names course right acts r leaf) :
    code.Ways course fun acts =>
      (∃ leaf : Leaf, leaf.acts = acts ∧
        Tracks env names course (connective.expr left right) acts v leaf) ∧
      Proceeds env names connective left right course acts := by
  cases connects with
  | intro tests decides =>
      obtain ⟨_, nodup, apart⟩ := List.nodup_append'.mp nodup
      obtain ⟨apart, apart'⟩ := List.disjoint_append_right.mp apart
      obtain ⟨_, nodup, _⟩ := List.nodup_append'.mp nodup
      refine Code.ways_seq ((ways course).along ?_)
      rintro _ _ _ _ ⟨leaf, rfl, tracks⟩
      refine Code.ways_seq (Code.ways_of_exec ?_)
      intro _ tested _ exec
      have coerced := exec.mem_traces
      rw [tests.traces, borrowed_type] at coerced
      rw [← Course.behind_append]
      have state : Tested env names left right course l leaf tested :=
        ⟨typed, typed'.trans (same.trans typed.symm), tracks, tracks.keeps inside (exec.keeps _) apart,
          coerced.1⟩
      exact decides.ways same state inside apart' nodup inside' ways'

/-- A side of a choice. -/
theorem ways_chosen {test : Expr} (onTrue onFalse : Expr) (taken : Bool) {type : TypeId}
    {first second : Operand × Binding × BlockId} {address flag : Operand} {ending target fin : BlockId}
    {placing merging : Code} {tested before : List Act} {p : Spot} {u : Value}
    (eq : before = tested ++ [.move .plain (.branch p flag taken target)])
    (tests : testTraces env.types env.signatures names.typing test (Act.trace tested) false)
    (places : Places env.types v placing address w)
    (joins : Joins env.types type first second merging u) (ne : first.2.2 ≠ second.2.2)
    (mem : (address, v.binding, ending) = first ∨ (address, v.binding, ending) = second)
    (typed : v.type = type) (inside : v.Inside code.temps) (apart : code.temps.Disjoint placing.temps)
    (nodup : merging.temps.Nodup)
    (ways : ∀ course, code.Ways course fun acts => ∃ leaf : Leaf, leaf.acts = acts ∧
      Tracks env names course (if taken then onTrue else onFalse) acts v leaf) :
    (Code.seq (.seq (.seq code placing) (.jump ending fin)) merging).Ways (course.behind before)
      fun acts => ∃ leaf : Leaf, leaf.acts = before ++ acts ∧
        Tracks env names course (.ternary test onTrue onFalse) (before ++ acts) u leaf := by
  refine Code.ways_assoc.mpr (Code.ways_assoc.mpr (Code.ways_seq ((ways _).along ?_)))
  rintro _ _ _ _ ⟨leaf, rfl, tracks⟩
  refine Code.ways_seq ((places.ways tracks inside apart).along ?_)
  rintro _ giving _ exec ⟨place, tracksPlaced⟩
  have silent := exec.mem_traces
  rw [places.traces] at silent
  have selects : Selects env.types env.signatures names.typing (.ternary test onTrue onFalse)
      (Act.trace before ++ Act.trace (leaf.acts ++ giving)) leaf.expr
      (Act.trace before ++ Act.trace leaf.before) (Act.trace leaf.own) := by
    have selects : Selects _ _ _ (.ternary test onTrue onFalse) _ _ _ _ := .choice tests tracks.selects
    simpa [eq, Act.events, silent.1] using selects
  rw [← Course.behind_append, ← Course.behind_append]
  exact (tracksPlaced.meets places.address_eq places.binding_eq (places.type_eq.trans typed) joins ne
    mem rfl selects nodup).mono fun _ met => by simpa using met.1

theorem Chooses.ways {test onTrue onFalse : Expr} {t a b : Value} {atTest atTrue atFalse : Code}
    (chooses : Chooses env t a b atTest atTrue atFalse code v)
    (atTests : Evaluates env names (.expr test) [t] atTest) (nodup : code.temps.Nodup)
    (inside : a.Inside atTrue.temps) (inside' : b.Inside atFalse.temps)
    (ways : ∀ course, atTrue.Ways course fun acts =>
      ∃ leaf : Leaf, leaf.acts = acts ∧ Tracks env names course onTrue acts a leaf)
    (ways' : ∀ course, atFalse.Ways course fun acts =>
      ∃ leaf : Leaf, leaf.acts = acts ∧ Tracks env names course onFalse acts b leaf) :
    code.Ways course fun acts => ∃ leaf : Leaf, leaf.acts = acts ∧
      Tracks env names course (.ternary test onTrue onFalse) acts v leaf := by
  cases chooses with
  | @intro testing flag placing trueAddress onTrue' placing' falseAddress onFalse' trueEnd falseEnd
      merging _ trueStart falseStart fin same tests places places' ne joins =>
      have perm := temps_meet_perm true flag trueStart falseStart trueEnd falseEnd fin
        (.seq atTrue placing) (.seq atFalse placing') merging
      obtain ⟨_, nodup, _⟩ := List.nodup_append'.mp nodup
      replace nodup := perm.nodup_iff.mp nodup
      simp only [Code.temps, List.nodup_append'] at nodup
      obtain ⟨⟨⟨_, _, apart⟩, ⟨_, _, apart'⟩, _⟩, nodup, _⟩ := nodup
      refine Code.ways_seq (Code.ways_of_exec ?_)
      intro _ tested _ exec
      have traces := exec.mem_traces
      rw [tested_traces atTests tests] at traces
      refine Code.ways_meet (fun p => ?_) fun p => ?_
      · rw [← Course.behind_append]
        refine (ways_chosen onTrue onFalse true rfl traces places joins ne (.inl rfl) rfl inside apart
          nodup ways).mono ?_
        simp
      · rw [← Course.behind_append]
        refine (ways_chosen onTrue onFalse false rfl traces places' joins ne (.inr rfl) same inside'
          apart' nodup ways').mono ?_
        simp

/-! ## Expressions -/

theorem Dispatches.inside {callee : Callee} {args : List Value} {result : Option Value}
    (dispatches : Dispatches env callee args code result) : ∀ v ∈ result, v.Inside code.temps := by
  intro v eq
  cases dispatches with
  | void => cases eq
  | result =>
      cases eq
      refine Value.inside_of_register ?_ rfl (by simp [Value.temporary, Binding.flag])
      simp [Code.temps, Instr.number?, Instr.dest, Operand.temp?]

theorem Negates.inside (negates : Negates env v code w) : w.Inside code.temps := by
  cases negates with
  | intro =>
      refine Value.inside_of_register ?_ rfl (by simp [Value.direct, Binding.flag])
      simp [Code.temps, Instr.number?, Instr.dest, Operand.temp?]

theorem Operates.inside {op : BinaryOperator} {left right : Value}
    (operates : Operates env op left right code v) : v.Inside code.temps := by
  cases operates with
  | plain _ _ dispatches _ => exact dispatches.inside v rfl
  | negated _ _ _ _ negates => exact negates.inside.mono (List.subset_append_right _ _)

theorem Connects.inside {connective : Connective} {left right : Value} {atLeft atRight : Code}
    (connects : Connects env connective left right atLeft atRight code v) : v.Inside code.temps := by
  cases connects with
  | intro _ decides =>
      cases decides with
      | alike _ _ _ _ _ joins =>
          apply joins.inside.mono
          intro n mem
          simp [Code.temps, mem]
      | flags =>
          refine Value.inside_of_register ?_ rfl (by simp [Value.direct, Binding.flag])
          simp [Code.temps, Instr.number?, Instr.dest, Operand.temp?]

theorem Chooses.inside {test onTrue onFalse : Value} {atTest atTrue atFalse : Code}
    (chooses : Chooses env test onTrue onFalse atTest atTrue atFalse code v) :
    v.Inside code.temps := by
  cases chooses with
  | intro _ _ _ _ _ joins =>
      apply joins.inside.mono
      intro n mem
      simp [Code.temps, mem]

theorem Indexes.inside {container position : Value} {atContainer atPosition : Code}
    (indexes : Indexes env container position atContainer atPosition code v) :
    v.Inside code.temps := by
  cases indexes with
  | intro =>
      refine Value.inside_of_register ?_ rfl (by simp [Value.stable, Binding.flag])
      simp [Code.temps, Instr.number?, Instr.dest, Operand.temp?]

theorem Connects.sublist {connective : Connective} {left right : Value} {atLeft atRight : Code}
    {parts : List Part} (connects : Connects env connective left right atLeft atRight code v)
    (sub : code.parts.Sublist parts) :
    atLeft.parts.Sublist parts ∧ atRight.parts.Sublist parts := by
  cases connects with
  | intro _ decides =>
      obtain ⟨first, rest⟩ := Code.sublist_seq sub
      refine ⟨first, ?_⟩
      replace rest := (Code.sublist_seq rest).2
      cases decides with
      | alike =>
          have sides := Code.sublist_sides (Code.sublist_seq rest).1
          exact (Code.sublist_seq (Code.sublist_seq sides.1).1).1
      | flags =>
          have sides := Code.sublist_sides (Code.sublist_seq (Code.sublist_seq rest).1).1
          exact (Code.sublist_seq (Code.sublist_seq sides.1).1).1

theorem Chooses.sublist {test onTrue onFalse : Value} {atTest atTrue atFalse : Code}
    {parts : List Part} (chooses : Chooses env test onTrue onFalse atTest atTrue atFalse code v)
    (sub : code.parts.Sublist parts) :
    atTrue.parts.Sublist parts ∧ atFalse.parts.Sublist parts := by
  cases chooses with
  | intro =>
      have sides := Code.sublist_sides (Code.sublist_seq (Code.sublist_seq sub).2).1
      exact ⟨(Code.sublist_seq (Code.sublist_seq sides.1).1).1,
        (Code.sublist_seq (Code.sublist_seq sides.2).1).1⟩

/-- The values of expressions are made of what their code defines. -/
theorem Evaluates.inside {phrase : Phrase} {vs : List Value}
    (evaluates : Evaluates env names phrase vs code) (outer : code.All Part.Outer) :
    ∀ v ∈ vs, v.Inside code.temps := by
  induction evaluates with
  | literal =>
      simpa using Value.inside_outer
        ⟨rfl, by simp [Value.constant, Storage.operands, Operand.temp?]⟩
  | name => simpa using Value.inside_outer (Code.all_read.mp outer)
  | binary _ _ operates =>
      refine List.forall_mem_singleton.mpr (operates.inside.mono ?_)
      exact List.subset_append_of_subset_right _ (List.subset_append_right _ _)
  | not _ _ negates =>
      refine List.forall_mem_singleton.mpr (negates.inside.mono ?_)
      exact List.subset_append_of_subset_right _ (List.subset_append_right _ _)
  | and _ _ connects | or _ _ connects => exact List.forall_mem_singleton.mpr connects.inside
  | ternary _ _ _ chooses => exact List.forall_mem_singleton.mpr chooses.inside
  | index _ _ indexes => exact List.forall_mem_singleton.mpr indexes.inside
  | call _ _ dispatches =>
      intro v mem
      exact (dispatches.inside v (Option.mem_toList.mp mem)).mono (List.subset_append_right _ _)
  | nil => simp
  | cons _ _ ih₁ ih₂ =>
      obtain ⟨outer₁, outer₂⟩ := Code.all_seq.mp outer
      refine List.forall_mem_cons.mpr ⟨?_, fun v mem => ?_⟩
      · exact (ih₁ outer₁ _ (List.mem_singleton_self _)).mono (List.subset_append_left _ _)
      · exact (ih₂ outer₂ v mem).mono (List.subset_append_right _ _)

end

section

variable {env : Surroundings} {names : Names} {course : Course} {v : Value} {e : Expr}
  {acts : List Act} {code first second : Code}

/-- A value is the result of a call, in a slot that the call got as its place. -/
def Returned (course : Course) (v : Value) (acts : List Act) : Prop :=
  ∃ type n, v = .temporary type (.temp n) ∧ (course.behind acts).eval (.temp n) = .temp n ∧
    HoldsResult n (Act.moves acts)

theorem ways_returned (ways : ∀ course, second.Ways course (Returned course v)) :
    (Code.seq first second).Ways course (Returned course v) := by
  refine Code.ways_seq (Code.ways_of_exec ?_)
  intro _ acts _ _
  refine (ways _).mono ?_
  rintro more ⟨type, n, rfl, value, before, p, allocated, q, returns, callee, args, pointer, after, eq,
    keeps⟩
  refine ⟨type, n, rfl, by rwa [Course.behind_append], Act.moves acts ++ before, p, allocated, q,
    returns, callee, args, pointer, after, ?_, keeps⟩
  rw [Act.moves_append, eq, List.append_assoc]

theorem Dispatches.ways {callee : Callee} {args : List Value}
    (dispatches : Dispatches env callee args code (some v)) (course : Course) :
    code.Ways course (Returned course v) := by
  cases dispatches with
  | @result target passing operands args' releasing n _ _ _ releases =>
      apply ways_returned
      intro course
      refine Code.ways_seq (Code.ways_instr fun p => ?_)
      refine Code.ways_seq (Code.ways_instr fun q => ?_)
      refine Code.ways_of_exec ?_
      intro _ torn _ exec
      refine ⟨_, n, rfl, ?_, [], p, _, q, _, _, _, _, Act.moves torn, rfl, ?_⟩
      · refine Eq.trans (exec.keeps ((course.after _).after _) n (by simp [releases.temps])) ?_
        simp [Course.after, Course.put, Instr.dest, Course.merged?, Instr.incoming?]
      · intro move mem
        exact exec.move_keeps move mem n (by simp [releases.temps])

/-- A leaf is owned if it is the result of a call. -/
theorem ways_leaf (evaluates : Evaluates env names (.expr e) [v] code)
    (other : ¬ Reference.Joins env.types env.signatures names.typing e)
    (made : (env.types.method v.type teardown).isSome →
      if isResult e then code.Ways course (Returned course v) else v.binding.owns = false) :
    code.Ways course fun acts => ∃ leaf : Leaf, leaf.acts = acts ∧
      Tracks env names course e acts v leaf := by
  intro p acts q exec allows
  have traced := exec.mem_traces
  rw [evaluates.traces] at traced
  refine ⟨⟨e, v, [], acts, [], v.address.map (course.behind acts).eval⟩, by simp [Leaf.acts], ?_⟩
  have whole : (⟨e, v, [], acts, [], v.address.map (course.behind acts).eval⟩ : Leaf).acts = acts := by
    simp [Leaf.acts]
  refine ⟨⟨[], by simp [Leaf.acts]⟩, whole.symm ▸ .leaf other traced, ⟨code, p, q, evaluates, exec⟩,
    ?_, ?_, ?_, ?_⟩
  · intro disposable result
    have made := made disposable
    rw [if_pos result] at made
    obtain ⟨type, n, eq, value, holds⟩ := made p acts q exec allows
    exact ⟨n, by simp [eq, Value.temporary, Value.address, Storage.address, value], holds⟩
  · cases found : v.address with
    | none => exact .nowhere found rfl
    | some address => exact .address found (by simp)
  · refine ⟨rfl, fun _ eq => eq, ?_, ?_⟩
    · intro disposable
      have made := made disposable
      by_cases result : isResult e
      · rw [if_pos result] at made
        obtain ⟨type, n, eq, _⟩ := made p acts q exec allows
        rw [eq, show isResult e = true from result]
        rfl
      · rw [if_neg result] at made
        rw [flag_of_not_owns made, show isResult e = false by simpa using result]
        rfl
    · intro disposable result
      have made := made disposable
      rw [if_pos result] at made
      obtain ⟨type, n, eq, _⟩ := made p acts q exec allows
      simp [eq, Value.temporary, Value.address, Storage.address]
  · intro none
    exact ⟨Option.map_eq_none_iff.mp none, rfl⟩

theorem ways_expr (ways : code.Ways course fun acts =>
      ∃ leaf : Leaf, leaf.acts = acts ∧ Tracks env names course e acts v leaf) :
    code.Ways course fun acts => (Phrase.expr e).Tracked env names course [v] acts := by
  refine ways.mono fun acts tracks w eq => ?_
  cases eq
  exact tracks

theorem ways_of_tracked
    (ways : code.Ways course fun acts => (Phrase.expr e).Tracked env names course [v] acts) :
    code.Ways course fun acts =>
      ∃ leaf : Leaf, leaf.acts = acts ∧ Tracks env names course e acts v leaf :=
  ways.mono fun _ tracked => tracked v rfl

theorem Connects.tracks (plain : env.types.method Registry.bool teardown = none)
    {connective : Connective} {left right : Expr} {l r : Value} {atLeft atRight : Code}
    (connects : Connects env connective l r atLeft atRight code v)
    (evaluates : Evaluates env names (.expr (connective.expr left right)) [v] code)
    (onLeft : Evaluates env names (.expr left) [l] atLeft)
    (onRight : Evaluates env names (.expr right) [r] atRight)
    (nodup : code.temps.Nodup) (outer : code.All Part.Outer)
    (ways : ∀ course, atLeft.Ways course
      fun acts => (Phrase.expr left).Tracked env names course [l] acts)
    (ways' : ∀ course, atRight.Ways course
      fun acts => (Phrase.expr right).Tracked env names course [r] acts)
    (course : Course) :
    code.Ways course fun acts =>
      (Phrase.expr (connective.expr left right)).Tracked env names course [v] acts := by
  have typed := hasTypes_expr.mp onLeft.hasTypes
  have typed' := hasTypes_expr.mp onRight.hasTypes
  obtain ⟨sub, sub'⟩ := connects.sublist (.refl _)
  apply ways_expr
  by_cases same : r.type = l.type
  · exact (connects.ways typed typed' same nodup
      (onLeft.inside (outer.of_sublist sub) _ (List.mem_singleton_self _))
      (onRight.inside (outer.of_sublist sub') _ (List.mem_singleton_self _))
      (fun course => ways_of_tracked (ways course))
      (fun course => ways_of_tracked (ways' course))).mono fun _ tracked => tracked.1
  · apply ways_leaf evaluates
    · rw [joins_expr, typed, typed']
      exact same
    · intro disposable
      rw [connects.traces.2, if_neg same, plain] at disposable
      cases disposable

/-- On each way through the code of an expression its value is that of the leaf that the way selects,
    and is owned if this is the result of a call. -/
theorem Evaluates.tracks (plain : env.types.method Registry.bool teardown = none) {phrase : Phrase}
    {vs : List Value} (evaluates : Evaluates env names phrase vs code) (nodup : code.temps.Nodup)
    (outer : code.All Part.Outer) (course : Course) :
    code.Ways course fun acts => phrase.Tracked env names course vs acts := by
  have evaluated := evaluates
  induction evaluates generalizing course with
  | @literal e type symbol eq =>
      apply ways_expr
      apply ways_leaf evaluated
      · cases e <;> first | exact id | cases eq
      · intro _
        cases e <;> first | rfl | cases eq
  | name =>
      apply ways_expr
      apply ways_leaf evaluated id
      intro _
      exact (Code.all_read.mp outer).1
  | binary _ _ operates =>
      apply ways_expr
      apply ways_leaf evaluated id
      intro disposable
      cases operates with
      | plain _ _ dispatches _ =>
          exact ways_returned fun _ => ways_returned fun _ => dispatches.ways _
      | negated _ _ _ _ negates => simp [negates.traces.2, plain] at disposable
  | not _ _ negates =>
      apply ways_expr
      apply ways_leaf evaluated id
      intro disposable
      simp [negates.traces.2, plain] at disposable
  | and left right connects ih₁ ih₂ | or left right connects ih₁ ih₂ =>
      obtain ⟨sub₁, sub₂⟩ := connects.sublist (.refl _)
      exact connects.tracks plain evaluated left right nodup outer
        (fun course => ih₁ (Code.nodup_of_sublist sub₁ nodup) (outer.of_sublist sub₁) course left)
        (fun course => ih₂ (Code.nodup_of_sublist sub₂ nodup) (outer.of_sublist sub₂) course right)
        course
  | ternary test onTrue onFalse chooses _ ih₂ ih₃ =>
      obtain ⟨sub₂, sub₃⟩ := chooses.sublist (.refl _)
      have outer₂ := outer.of_sublist sub₂
      have outer₃ := outer.of_sublist sub₃
      apply ways_expr
      exact chooses.ways test nodup (onTrue.inside outer₂ _ (List.mem_singleton_self _))
        (onFalse.inside outer₃ _ (List.mem_singleton_self _))
        (fun course => ways_of_tracked (ih₂ (Code.nodup_of_sublist sub₂ nodup) outer₂ course onTrue))
        (fun course => ways_of_tracked (ih₃ (Code.nodup_of_sublist sub₃ nodup) outer₃ course onFalse))
  | index _ _ indexes =>
      apply ways_expr
      apply ways_leaf evaluated id
      intro _
      cases indexes
      rfl
  | @call callee args target vs atArgs calling result _ _ dispatches =>
      cases result with
      | none =>
          refine Code.ways_of_exec ?_
          intro _ _ _ _ v eq
          cases eq
      | some v =>
          apply ways_expr
          apply ways_leaf evaluated id
          exact fun _ => ways_returned fun _ => dispatches.ways _
  | nil => exact Code.ways_skip ⟨[], .nil⟩
  | cons first rest ih₁ ih₂ =>
      obtain ⟨nodup₁, nodup₂, apart⟩ := List.nodup_append'.mp nodup
      obtain ⟨outer₁, outer₂⟩ := Code.all_seq.mp outer
      refine Code.ways_seq ((ih₁ nodup₁ outer₁ course first).along ?_)
      intro _ acts _ _ tracked
      obtain ⟨leaf, rfl, tracks⟩ := tracked _ rfl
      refine (ih₂ nodup₂ outer₂ _ rest).along ?_
      rintro _ more _ exec ⟨leaves, tracked⟩
      have inside := first.inside outer₁ _ (List.mem_singleton_self _)
      exact ⟨leaf :: leaves, .cons (tracks.keeps inside (exec.keeps _) apart) tracked⟩

end

end Translation

end LlvmBackend
