import LlvmBackend.Proofs.Translation.Selection
import Mathlib.Data.List.Forall2

/-! # Arguments that are torn down

A call passes its arguments at the addresses of the leaves that were selected for them. Behind the
call those are torn down, in their order, whose leaves are results of calls that have to be torn
down, and no others; what was only lent to the call is left alone.
-/

namespace LlvmBackend

open Ir Reference
open Lowering (teardown)

theorem Value.Inside.borrowed {region : List Nat} {v : Value} (inside : v.Inside region) :
    v.borrowed.Inside region := by
  unfold Value.borrowed
  split
  · refine ⟨fun operand mem => inside.storage operand (Storage.operands_withoutCache _ mem), ?_⟩
    intro n eq
    cases eq
  · exact inside

theorem Value.borrowed_address (v : Value) : v.borrowed.address = v.address := by
  unfold Value.borrowed
  split
  · cases v with
    | mk _ storage _ => cases storage <;> rfl
  · rfl

theorem Value.borrowed_owns (v : Value) : v.borrowed.binding.owns = false := by
  unfold Value.borrowed
  split
  · rfl
  · next other => simpa using other

/-- What is lent is owned by nobody behind the call. -/
theorem Leaf.Bears.borrowed {leaf : Leaf} {types : Registry} {owned : Bool} {course : Course}
    {v : Value} (bears : leaf.Bears types owned course v) :
    leaf.Bears types false course v.borrowed where
  type := bears.type.trans (Translation.borrowed_type v).symm
  address := by
    rw [Value.borrowed_address]
    exact bears.address
  flag := fun _ => by
    rw [Translation.flag_of_not_owns v.borrowed_owns]
    rfl
  placed := fun _ owned => by cases owned

namespace Translation

/-- Acts pass leaves to a call, those that go by address at their places. Behind the call they tear
    down in their order the leaves that are owned and have to be torn down, and call nothing else. -/
inductive Disposes (types : Registry) (owned : Leaf → Bool) (leaves : List Leaf) (course : Course) :
    List Act → Prop where
  | intro :
      course.calls passing = [] →
      List.Forall₂ (fun leaf operand => ¬ types.isByValue leaf.value.type →
          ∀ place, leaf.place = some place → (course.behind passing).eval operand.operand = place)
        leaves operands →
      (course.behind (passing ++
        [.move .plain (.instr p (.call none .void symbol (operands ++ last)))])).calls behind =
          leaves.filterMap (fun leaf => leaf.teardown? types (owned leaf)) →
      Disposes types owned leaves course
        (passing ++ .move .plain (.instr p (.call none .void symbol (operands ++ last))) :: behind)

/-- A way evaluates arguments and calls something with them. If they are not only lent, those are owned
    whose leaves are results. -/
inductive Consumes (env : Surroundings) (names : Names) (es : List Expr) (vs : List Value)
    (lent : Bool) (course : Course) : List Act → Prop where
  | intro :
      TracksAll env names course es taking vs leaves →
      Disposes env.types (fun leaf => !lent && isResult leaf.expr) leaves (course.behind taking)
        calling →
      Consumes env names es vs lent course (taking ++ calling)

/-- Expressions are evaluated to values, and something is called with these, or with borrowed ones. -/
structure CallsWith (env : Surroundings) (names : Names) (callee : Callee) (es : List Expr)
    (vs : List Value) (lent : Bool) (atArgs calling : Code) : Prop where
  evaluates : Evaluates env names (.exprs es) vs atArgs
  dispatches : ∃ result,
    Dispatches env callee (if lent then vs.map Value.borrowed else vs) calling result

variable {types : Registry} {env : Surroundings} {names : Names} {course : Course} {v w : Value}
  {vs ws : List Value} {leaf : Leaf} {leaves : List Leaf} {code : Code} {region : List Nat}
  {owned : Bool} {typed : TypedOperand} {operands : List TypedOperand}

/-! ## Passing -/

theorem Loads.inside {operand : Operand} (loads : Loads types v code operand w)
    (inside : v.Inside region) : w.Inside (region ++ code.temps) := by
  cases loads with
  | direct | cached => exact inside.mono (List.subset_append_left _ _)
  | @addressed type address binding n =>
      refine ⟨?_, fun m eq => List.mem_append_left _ (inside.flag m eq)⟩
      have there : ∀ m, address = .temp m → m ∈ region := inside.address rfl
      intro operand mem m eq
      simp only [Code.temps, Instr.number?, Instr.dest, Operand.temp?, Option.bind_some,
        Option.toList_some, List.mem_append, List.mem_singleton]
      split at mem
      · simp only [Storage.operands, List.mem_cons, List.not_mem_nil, or_false] at mem
        rcases mem with rfl | rfl
        · exact .inl (there m eq)
        · exact .inr (Operand.temp.inj eq).symm
      · simp only [Storage.operands, List.mem_singleton] at mem
        exact .inl (there m (mem ▸ eq))

theorem Loads.address_eq {operand : Operand} (loads : Loads types v code operand w) :
    w.address = v.address ∧ w.binding = v.binding := by
  cases loads with
  | direct | cached => exact ⟨rfl, rfl⟩
  | addressed =>
      refine ⟨?_, rfl⟩
      simp only [Value.address]
      split <;> rfl

theorem Loads.silent {operand : Operand} (loads : Loads types v code operand w) :
    code.All Part.Silent := by
  cases loads <;> simp [Part.Silent, Instr.callee?]

theorem Passes.silent (passes : Passes types v code typed w) : code.All Part.Silent := by
  cases passes with
  | byValue _ loads => exact loads.silent
  | byAddress _ places => exact places.silent

theorem Passes.inside (passes : Passes types v code typed w) (inside : v.Inside region) :
    w.Inside (region ++ code.temps) := by
  cases passes with
  | byValue _ loads => exact loads.inside inside
  | byAddress _ places => exact places.inside inside

/-- What is passed by address is the address. -/
theorem Passes.located (passes : Passes types v code typed w) :
    ¬ types.isByValue w.type → w.address = some typed.operand := by
  cases passes with
  | byValue byValue loads =>
      intro other
      rw [loads.type_eq] at other
      exact absurd byValue other
  | byAddress _ places => exact fun _ => places.address_eq

/-- Passing a value does not move it. -/
theorem Passes.ways (passes : Passes types v code typed w) (bears : leaf.Bears types owned course v)
    (inside : v.Inside region) (apart : region.Disjoint code.temps) :
    code.Ways course fun acts => leaf.Bears types owned (course.behind acts) w := by
  refine Code.ways_of_exec ?_
  intro _ acts _ exec
  have bears := bears.keeps inside (exec.keeps course) apart
  cases passes with
  | byValue _ loads =>
      obtain ⟨address, binding⟩ := loads.address_eq
      exact bears.of_eval loads.type_eq (by rw [address]) fun _ => by rw [binding]
  | byAddress _ places =>
      cases places with
      | addressed | cached => exact bears
      | direct =>
          -- A value that gets an address only now has no place.
          refine ⟨bears.type, ?_, bears.flag, bears.placed⟩
          intro place eq
          cases bears.address place eq

theorem PassesAll.silent (passes : PassesAll types vs code operands ws) : code.All Part.Silent := by
  induction passes with
  | nil => simp
  | cons first _ ih => exact Code.all_seq.mpr ⟨first.silent, ih⟩

theorem PassesAll.inside (passes : PassesAll types vs code operands ws)
    (inside : ∀ v ∈ vs, v.Inside region) : ∀ w ∈ ws, w.Inside (region ++ code.temps) := by
  induction passes with
  | nil => simp
  | cons first _ ih =>
      obtain ⟨here, others⟩ := List.forall_mem_cons.mp inside
      refine List.forall_mem_cons.mpr
        ⟨(first.inside here).mono ?_, fun w mem => (ih others w mem).mono ?_⟩
      · intro n mem
        grind [Code.temps]
      · intro n mem
        grind [Code.temps]

theorem forall₂_keeps {changed : List Nat} {later : Course} {owned : Leaf → Bool}
    (bears : List.Forall₂ (fun leaf v => leaf.Bears types (owned leaf) course v) leaves vs)
    (inside : ∀ v ∈ vs, v.Inside region) (keeps : course.Keeps changed later)
    (apart : region.Disjoint changed) :
    List.Forall₂ (fun leaf v => leaf.Bears types (owned leaf) later v) leaves vs := by
  induction bears with
  | nil => exact .nil
  | cons head _ ih =>
      obtain ⟨here, others⟩ := List.forall_mem_cons.mp inside
      exact .cons (head.keeps here keeps apart) (ih others)

theorem PassesAll.ways {owned : Leaf → Bool} (passes : PassesAll types vs code operands ws)
    (bears : List.Forall₂ (fun leaf v => leaf.Bears types (owned leaf) course v) leaves vs)
    (inside : ∀ v ∈ vs, v.Inside region) (apart : region.Disjoint code.temps)
    (nodup : code.temps.Nodup) :
    code.Ways course fun acts =>
      List.Forall₂ (fun leaf w => leaf.Bears types (owned leaf) (course.behind acts) w) leaves ws := by
  induction passes generalizing course leaves with
  | nil =>
      cases bears
      exact Code.ways_skip .nil
  | cons first rest ih =>
      cases bears with
      | cons head tail =>
          obtain ⟨here, others⟩ := List.forall_mem_cons.mp inside
          obtain ⟨apart₁, apart₂⟩ := List.disjoint_append_right.mp apart
          obtain ⟨_, nodup, between⟩ := List.nodup_append'.mp nodup
          refine Code.ways_seq ((first.ways head here apart₁).along ?_)
          intro _ acts _ exec head
          have tail := forall₂_keeps tail others (exec.keeps course) apart₁
          refine (ih tail others apart₂ nodup).along ?_
          intro _ more _ exec' tail
          rw [Course.behind_append]
          exact .cons (head.keeps (first.inside here) (exec'.keeps _)
            (List.disjoint_append_left.mpr ⟨apart₂, between⟩)) tail

/-- Arguments that are passed by address are passed at the places of their leaves. -/
theorem PassesAll.places {owned : Leaf → Bool} (passes : PassesAll types vs code operands ws)
    (bears : List.Forall₂ (fun leaf w => leaf.Bears types (owned leaf) course w) leaves ws) :
    List.Forall₂ (fun leaf operand => ¬ types.isByValue leaf.value.type →
      ∀ place, leaf.place = some place → course.eval operand.operand = place) leaves operands := by
  induction passes generalizing leaves with
  | nil =>
      cases bears
      exact .nil
  | cons first _ ih =>
      cases bears with
      | cons head tail =>
          refine .cons ?_ (ih tail)
          intro byAddress place eq
          rw [head.type] at byAddress
          have stands := head.address place eq
          rw [first.located byAddress] at stands
          exact Option.some.inj stands

/-! ## Calls -/

/-- Tearing values down calls for the leaves among theirs that are owned and have to be torn down. -/
theorem ReleasesAll.ways {owned : Leaf → Bool} (releases : ReleasesAll types vs code)
    (bears : List.Forall₂ (fun leaf v => leaf.Bears types (owned leaf) course v) leaves vs)
    (inside : ∀ v ∈ vs, v.Inside region) :
    code.Ways course fun acts =>
      course.calls acts = leaves.filterMap fun leaf => leaf.teardown? types (owned leaf) := by
  induction releases generalizing course leaves with
  | nil =>
      cases bears
      exact Code.ways_skip rfl
  | cons first _ ih =>
      cases bears with
      | cons head tail =>
          obtain ⟨_, others⟩ := List.forall_mem_cons.mp inside
          refine Code.ways_seq ((first.ways head).along ?_)
          intro _ acts _ exec torn
          have tail := forall₂_keeps tail others (exec.keeps course)
            (first.temps ▸ List.disjoint_nil_right _)
          refine (ih tail others).mono ?_
          intro more torn'
          rw [Course.calls_append, torn, torn', List.filterMap_cons]
          split <;> simp_all

/-- A call whose arguments stand ready, and what comes behind it. -/
theorem ReleasesAll.disposes {owned : Leaf → Bool} {symbol : String} {last : List TypedOperand}
    (releases : ReleasesAll types ws code) (passes : PassesAll types vs passing operands ws)
    (bears : List.Forall₂ (fun leaf w => leaf.Bears types (owned leaf) course w) leaves ws)
    (inside : ∀ w ∈ ws, w.Inside region) {course₀ : Course} {before : List Act}
    (eq : course₀.behind before = course) (silent : course₀.calls before = []) :
    (Code.seq (.instr .plain (.call none .void symbol (operands ++ last))) code).Ways course
      fun acts => Disposes types owned leaves course₀ (before ++ acts) := by
  subst eq
  refine Code.ways_seq (Code.ways_instr fun p => ?_)
  have keeps : (course₀.behind before).Keeps [] ((course₀.behind before).behind
      [.move .plain (.instr p (.call none .void symbol (operands ++ last)))]) := fun _ _ => rfl
  refine (releases.ways (forall₂_keeps bears inside keeps (List.disjoint_nil_right _)) inside).mono ?_
  intro torn calls
  exact .intro silent (passes.places bears) (Course.behind_append _ _ ▸ calls)

/-- What is called gets the leaves of its arguments, and they are disposed of. -/
theorem Dispatches.disposes {callee : Callee} {result : Option Value} {owned : Leaf → Bool}
    (dispatches : Dispatches env callee vs code result)
    (bears : List.Forall₂ (fun leaf v => leaf.Bears env.types (owned leaf) course v) leaves vs)
    (inside : ∀ v ∈ vs, v.Inside region) (apart : region.Disjoint code.temps)
    (nodup : code.temps.Nodup) : code.Ways course (Disposes env.types owned leaves course) := by
  cases dispatches with
  | @void target passing operands args' releasing _ passes _ releases =>
      obtain ⟨apart, _⟩ := List.disjoint_append_right.mp apart
      obtain ⟨nodup, _⟩ := List.nodup_append.mp nodup
      refine Code.ways_seq ((passes.ways bears inside apart nodup).along ?_)
      intro _ passed _ exec bears
      rw [← List.append_nil operands]
      exact releases.disposes passes bears (passes.inside inside) rfl
        (exec.calls_eq_nil passes.silent course)
  | @result target passing operands args' releasing n _ passes _ releases =>
      obtain ⟨apart, others⟩ := List.disjoint_append_right.mp apart
      obtain ⟨nodup, _, between⟩ := List.nodup_append'.mp nodup
      replace between := (List.disjoint_append_right.mp between).1
      obtain ⟨apart', _⟩ := List.disjoint_append_right.mp others
      refine Code.ways_seq ((passes.ways bears inside apart nodup).along ?_)
      intro _ passed _ exec bears
      refine Code.ways_seq (Code.ways_of_exec ?_)
      intro _ slot _ exec'
      have inside := passes.inside inside
      have bears := forall₂_keeps bears inside (exec'.keeps _)
        (List.disjoint_append_left.mpr ⟨apart', between⟩)
      have silent : course.calls (passed ++ slot) = [] := by
        rw [Course.calls_append, exec.calls_eq_nil passes.silent,
          exec'.calls_eq_nil (by simp [Code.parts, Part.Silent, Instr.callee?])]
        rfl
      refine (releases.disposes passes bears inside (Course.behind_append _ _) silent).mono ?_
      intro acts disposes
      rwa [← List.append_assoc]

/-- Arguments that are tracked are borne by their values. -/
theorem TracksAll.bears {es : List Expr} {acts : List Act}
    (tracks : TracksAll env names course es acts vs leaves) :
    List.Forall₂ (fun leaf v => leaf.Bears env.types (isResult leaf.expr) (course.behind acts) v)
      leaves vs := by
  induction tracks with
  | nil => exact .nil
  | cons first _ ih =>
      rw [Course.behind_append]
      exact .cons (Course.behind_append _ _ ▸ first.bears) ih

/-- Behind the evaluation of arguments their leaves are borne by what is called with. -/
theorem TracksAll.bears_lent {es : List Expr} {acts : List Act}
    (tracks : TracksAll env names course es acts vs leaves) (lent : Bool) :
    List.Forall₂ (fun leaf v =>
        leaf.Bears env.types (!lent && isResult leaf.expr) (course.behind acts) v)
      leaves (if lent then vs.map Value.borrowed else vs) := by
  cases lent with
  | false => exact tracks.bears
  | true => exact List.forall₂_map_right_iff.mpr (tracks.bears.imp fun _ _ bears => bears.borrowed)

/-- If truth values need no teardown, each way through a call with its arguments tears down those that
    are results and have to be torn down, and no others. -/
theorem CallsWith.consumes (plain : env.types.method Registry.bool teardown = none) {callee : Callee}
    {es : List Expr} {lent : Bool} {atArgs calling : Code}
    (calls : CallsWith env names callee es vs lent atArgs calling)
    (nodup : (Code.seq atArgs calling).temps.Nodup) (outer : (Code.seq atArgs calling).All Part.Outer)
    (course : Course) :
    (Code.seq atArgs calling).Ways course (Consumes env names es vs lent course) := by
  obtain ⟨evaluates, result, dispatches⟩ := calls
  obtain ⟨nodup₁, nodup₂, apart⟩ := List.nodup_append'.mp nodup
  obtain ⟨outer, _⟩ := Code.all_seq.mp outer
  have inside : ∀ v ∈ (if lent then vs.map Value.borrowed else vs), v.Inside atArgs.temps := by
    intro v mem
    split at mem
    · obtain ⟨w, there, rfl⟩ := List.mem_map.mp mem
      exact (evaluates.inside outer w there).borrowed
    · exact evaluates.inside outer v mem
  refine Code.ways_seq ((evaluates.tracks plain nodup₁ outer course).mono ?_)
  rintro taking ⟨leaves, tracks⟩
  refine (dispatches.disposes (tracks.bears_lent lent) inside apart nodup₂).mono ?_
  intro _ disposes
  exact .intro tracks disposes

end Translation

end LlvmBackend
