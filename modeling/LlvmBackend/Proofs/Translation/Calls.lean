import LlvmBackend.Proofs.Translation.Arguments
import LlvmBackend.Proofs.Translation.Custody.Stmt

/-! # Calls in code

Whatever the code of a tree calls, tearing values down and asking for the next element of a loop apart,
it calls with values of expressions that it evaluated right before.
-/

namespace LlvmBackend

open Ir
open Lowering (Connective)

/-- A property of code holds of all that is put together from code with it. It does not matter where
    nothing is called or looked up, or the source calls nothing. -/
structure Adds (P : Code → Prop) : Prop where
  silent : ∀ {code}, code.All Part.Silent → P code
  other : ∀ {role i}, role ≠ .plain → P (.instr role i)
  seq : ∀ {first second}, P first → P second → P (.seq first second)
  fork : ∀ {role flag a b first second}, P first → P second → P (.fork role flag a b first second)
  loop : ∀ {a b test flag turn}, P test → P turn → P (.loop a b test flag turn)

namespace Adds

variable {P : Code → Prop} (adds : Adds P) {code first second : Code} {a b : BlockId}
include adds

theorem skip : P .skip := adds.silent Code.all_skip

theorem jump : P (.jump a b) := adds.silent (Code.all_jump.mpr trivial)

theorem ret {value : Option TypedOperand} : P (.ret value) := adds.silent (Code.all_ret.mpr trivial)

theorem instr {role : Role} {i : Instr} (other : i.callee? = none) : P (.instr role i) :=
  adds.silent (Code.all_instr.mpr other)

theorem leading {ended : Bool} (h : P code) : P (code.leading ended a b) := by
  cases ended with
  | true => exact h
  | false => exact adds.seq h adds.jump

theorem sides {taken : Bool} {flag : Operand} (h₁ : P first) (h₂ : P second) :
    P (.sides taken flag a b first second) := by
  cases taken with
  | true => exact adds.fork h₁ h₂
  | false => exact adds.fork h₂ h₁

end Adds

/-- Code is carried out as other code is that has the same parts. -/
structure Code.Regroups (code other : Code) : Prop where
  parts : code.parts = other.parts
  exec : ∀ {p acts stop}, Exec p code acts stop → Exec p other acts stop

namespace Code

variable {first second other : Code}

theorem Regroups.seq_left (h : first.Regroups other) (second : Code) :
    (seq first second).Regroups (.seq other second) where
  parts := congrArg (· ++ second.parts) h.parts
  exec := by
    intro p acts stop exec
    cases exec with
    | seq exec exec' => exact .seq (h.exec exec) exec'
    | seqReturns exec => exact .seqReturns (h.exec exec)

theorem Regroups.seq_right (h : second.Regroups other) (first : Code) :
    (seq first second).Regroups (.seq first other) where
  parts := congrArg (first.parts ++ ·) h.parts
  exec := by
    intro p acts stop exec
    cases exec with
    | seq exec exec' => exact .seq exec (h.exec exec')
    | seqReturns exec => exact .seqReturns exec

theorem regroups_assoc (first second third : Code) :
    (seq first (seq second third)).Regroups (.seq (.seq first second) third) where
  parts := (List.append_assoc ..).symm
  exec := by
    intro p acts stop exec
    cases exec with
    | seqReturns exec => exact .seqReturns (.seqReturns exec)
    | seq exec rest =>
        cases rest with
        | seqReturns exec' => exact .seqReturns (.seq exec exec')
        | seq exec' exec'' =>
            rw [← List.append_assoc]
            exact .seq (.seq exec exec') exec''

theorem regroups_skip (code : Code) : code.Regroups (.seq code .skip) where
  parts := (List.append_nil _).symm
  exec := by
    intro p acts stop exec
    cases stop with
    | none => exact .seqReturns exec
    | some q => simpa using Exec.seq exec .skip

end Code

namespace Translation

/-- A call tests the left operand of a connective, to which this lends it: the code of the connective
    begins with that of the operand and of the call. -/
inductive Lends (env : Surroundings) (names : Names) (parts : List Part) :
    Callee → List Expr → List Value → Code → Code → Prop where
  | intro :
      Evaluates env names (.expr left) [l] atLeft →
      Evaluates env names (.expr right) [r] atRight →
      Connects env connective l r atLeft atRight code v →
      code.parts.Sublist parts →
      (Code.seq (.seq atLeft .skip) calling).parts <+: code.parts →
      Lends env names parts .boolean [left] [l] (.seq atLeft .skip) calling

/-- An act is carried out by the code of a call, right behind that of its arguments. Only connectives
    lend what they call with. -/
inductive Made (env : Surroundings) (parts : List Part) (act : Act) : List Act → List Act → Prop where
  | intro :
      CallsWith env names callee es vs lent atArgs calling →
      (lent → Lends env names parts callee es vs atArgs calling) →
      (Code.seq atArgs calling).parts.Sublist parts →
      Exec p atArgs taking (some q) →
      Exec q calling (early ++ act :: late) (some r) →
      Made env parts act (front ++ (taking ++ early)) (late ++ back)

/-- Whatever acts call for the source is called with arguments that were evaluated before. -/
def Covered (env : Surroundings) (parts : List Part) (acts : List Act) : Prop :=
  ∀ before p symbol operands after,
    acts = before ++ .move .plain (.instr p (.call none .void symbol operands)) :: after →
    Made env parts (.move .plain (.instr p (.call none .void symbol operands))) before after

/-- Carrying out a piece of code calls with arguments. -/
def Covers (env : Surroundings) (parts : List Part) (code : Code) : Prop :=
  code.parts.Sublist parts → ∀ p acts stop, Exec p code acts stop → Covered env parts acts

variable {env : Surroundings} {names names' : Names} {code : Code} {v w : Value} {P : Code → Prop}

theorem Releases.adds {types : Registry} (adds : Adds P) (releases : Releases types v code) :
    P code := by
  cases releases with
  | nothing => exact adds.skip
  | always => exact adds.other (by simp)
  | guarded => exact adds.fork (adds.seq (adds.other (by simp)) adds.jump) adds.skip

theorem SlotFor.silent {types : Registry} {name : String} {type : TypeId} {slot : Operand}
    (slotFor : SlotFor types names name type slot code names') : code.All Part.Silent := by
  cases slotFor <;> simp [Part.Silent]

theorem Leaves.adds (adds : Adds P) {value : Option Expr} (leaves : Leaves env names value code)
    (evaluates : ∀ {phrase vs code}, Evaluates env names phrase vs code → P code) : P code := by
  cases leaves with
  | bare => exact adds.ret
  | dropped _ evaluated => exact adds.seq (evaluates evaluated) adds.ret
  | result _ _ evaluated loads =>
      exact adds.seq (evaluates evaluated)
        (adds.seq (adds.silent loads.silent) (adds.seq (adds.other (by simp)) adds.ret))

/-- What holds of the code of expressions and of tests holds of that of statements, in which names
    stand for what belongs to the function. -/
theorem Lowers.adds (adds : Adds P)
    (evaluates : ∀ {names phrase vs code}, names.Outer → Evaluates env names phrase vs code → P code)
    (tests : ∀ {names test v atTest testing flag}, names.Outer →
      Evaluates env names (.expr test) [v] atTest → Tests env v testing flag → P (.seq atTest testing))
    {work : Work} {ended : Bool} (lowers : Lowers env work names names' ended code)
    (outer : names.Outer) : P code ∧ names'.Outer := by
  induction lowers with
  | assign evaluated loads slotFor =>
      obtain ⟨constant, outer'⟩ := slotFor.outer outer
      exact ⟨adds.seq (evaluates outer evaluated) (adds.seq (adds.silent loads.silent)
        (adds.seq (adds.silent slotFor.silent) (adds.other (by simp)))), outer'.define constant⟩
  | noArms => exact ⟨adds.seq adds.skip adds.jump, outer⟩
  | ifChain _ ih => exact ih outer
  | whileLoop evaluated tested _ ih =>
      obtain ⟨turn, outer'⟩ := ih outer
      exact ⟨adds.seq adds.jump (adds.loop (tests outer evaluated tested) (adds.leading turn)), outer'⟩
  | forLoop evaluated _ _ places slotFor _ _ releases ih =>
      obtain ⟨constant, outer'⟩ := slotFor.outer outer
      obtain ⟨turn, outer''⟩ := ih (outer'.define constant)
      exact ⟨adds.seq (evaluates outer evaluated) (adds.seq (adds.silent places.silent)
        (adds.seq (adds.silent slotFor.silent) (adds.seq
          (adds.seq adds.jump (adds.loop (adds.other (by simp)) (adds.leading turn)))
          (releases.adds adds)))), outer''⟩
  | ret leaves => exact ⟨leaves.adds adds (evaluates outer), outer⟩
  | effect evaluated => exact ⟨evaluates outer evaluated, outer⟩
  | nil => exact ⟨adds.skip, outer⟩
  | ends _ ih => exact ih outer
  | goesOn _ _ ih₁ ih₂ =>
      obtain ⟨first, outer'⟩ := ih₁ outer
      obtain ⟨second, outer''⟩ := ih₂ outer'
      exact ⟨adds.seq first second, outer''⟩
  | otherwise _ ih =>
      obtain ⟨body, outer'⟩ := ih outer
      exact ⟨adds.leading body, outer'⟩
  | lastArm evaluated tested _ ih =>
      obtain ⟨body, outer'⟩ := ih outer
      exact ⟨adds.seq (tests outer evaluated tested) (adds.fork (adds.leading body) adds.skip), outer'⟩
  | arm evaluated tested _ _ ih₁ ih₂ =>
      obtain ⟨body, outer'⟩ := ih₁ outer
      obtain ⟨rest, outer''⟩ := ih₂ outer'
      exact ⟨adds.seq (tests outer evaluated tested) (adds.fork (adds.leading body) rest), outer''⟩

/-! ## What is looked up -/

theorem adds_outer : Adds (Code.All Part.Outer) where
  silent := by
    intro code all part mem
    have silent := all part mem
    cases part with
    | instr | slot | ends => trivial
    | read => cases silent
  other := fun _ => Code.all_instr.mpr trivial
  seq := fun first second => Code.all_seq.mpr ⟨first, second⟩
  fork := fun first second => Code.all_fork.mpr ⟨trivial, first, second⟩
  loop := fun test turn => Code.all_loop.mpr ⟨trivial, test, turn⟩

theorem admits_outer : Admits env Part.Outer :=
  ⟨by simp [Part.Outer], by simp [Part.Outer], by simp [Part.Outer], by simp [Part.Outer]⟩

/-- Names stand for what belongs to the function, wherever they are looked up. -/
theorem Lowers.outer {work : Work} {ended : Bool} (lowers : Lowers env work names names' ended code)
    (outer : names.Outer) : code.All Part.Outer := by
  have evaluates : ∀ {names : Names} {phrase vs code}, names.Outer →
      Evaluates env names phrase vs code → code.All Part.Outer :=
    fun outer evaluates => evaluates.all admits_outer fun name v => outer name v
  exact (lowers.adds adds_outer evaluates (fun outer evaluated tests =>
    Code.all_seq.mpr ⟨evaluates outer evaluated, tests.all admits_outer⟩) outer).1

/-! ## What is called -/

section

variable {parts : List Part} {acts first second : List Act}

theorem covered_of_ne (other : ∀ p symbol operands,
    .move .plain (.instr p (.call none .void symbol operands)) ∉ acts) : Covered env parts acts := by
  rintro _ _ _ _ _ rfl
  exact absurd (List.mem_append_right _ List.mem_cons_self) (other _ _ _)

/-- An act of two that follow each other is among the later or the earlier ones. -/
theorem split_append {before after : List Act} {act : Act}
    (whole : first ++ second = before ++ act :: after) :
    (∃ middle, before = first ++ middle ∧ second = middle ++ act :: after) ∨
      ∃ middle, after = middle ++ second ∧ first = before ++ act :: middle := by
  rcases List.append_eq_append_iff.mp whole with ⟨middle, eq, eq'⟩ | ⟨_ | ⟨act', middle⟩, eq, eq'⟩
  · exact .inl ⟨middle, eq, eq'⟩
  · exact .inl ⟨[], by simpa using eq.symm, eq'.symm⟩
  · obtain ⟨rfl, rfl⟩ := List.cons.inj eq'
    exact .inr ⟨middle, rfl, eq⟩

theorem Made.within {act : Act} {before after : List Act} (made : Made env parts act before after)
    (first last : List Act) : Made env parts act (first ++ before) (after ++ last) := by
  cases made with
  | intro calls lends sub exec exec' =>
      rw [← List.append_assoc, List.append_assoc _ _ last]
      exact .intro calls lends sub exec exec'

theorem Covered.append (h₁ : Covered env parts first) (h₂ : Covered env parts second) :
    Covered env parts (first ++ second) := by
  intro before p symbol operands after whole
  rcases split_append whole with ⟨middle, rfl, eq⟩ | ⟨middle, rfl, eq⟩
  · simpa using (h₂ middle p symbol operands after eq).within first []
  · exact (h₁ before p symbol operands middle eq).within [] second

theorem Covered.cons {act : Act} (h : Covered env parts acts)
    (other : ∀ p symbol operands, act ≠ .move .plain (.instr p (.call none .void symbol operands))) :
    Covered env parts (act :: acts) := by
  have here : Covered env parts [act] := covered_of_ne (by simpa [eq_comm] using other)
  exact here.append h

theorem covered_loop {a b : BlockId} {test turn : Code} {flag : Operand}
    (atTest : ∀ p acts stop, Exec p test acts stop → Covered env parts acts)
    (atTurn : ∀ p acts stop, Exec p turn acts stop → Covered env parts acts) {p : Spot}
    {stop : Option Spot} (exec : Exec p (.loop a b test flag turn) acts stop) :
    Covered env parts acts := by
  generalize eq : Code.loop a b test flag turn = whole at exec
  induction exec with
  | skip | seq | seqReturns | instr | read | slot | jump | forkTrue | forkFalse | ret => cases eq
  | loopEnds test =>
      cases eq
      exact (atTest _ _ _ test).append (covered_of_ne (by simp))
  | loopTurns test turn _ _ _ ih =>
      cases eq
      exact (atTest _ _ _ test).append (((atTurn _ _ _ turn).append (ih rfl)).cons (by simp))
  | turnReturns test turn =>
      cases eq
      exact (atTest _ _ _ test).append ((atTurn _ _ _ turn).cons (by simp))
  | testReturns test =>
      cases eq
      exact atTest _ _ _ test

theorem adds_covers (env : Surroundings) (parts : List Part) : Adds (Covers env parts) where
  silent := by
    intro code silent _ _ acts _ exec
    apply covered_of_ne
    intro p symbol operands mem
    cases silent _ (exec.acts_from _ mem)
  other := by
    intro role i ne _ _ acts _ exec
    cases exec
    exact covered_of_ne (by simp [ne.symm])
  seq := by
    intro first second h₁ h₂ sub _ acts _ exec
    obtain ⟨sub₁, sub₂⟩ := Code.sublist_seq sub
    cases exec with
    | seq exec₁ exec₂ => exact (h₁ sub₁ _ _ _ exec₁).append (h₂ sub₂ _ _ _ exec₂)
    | seqReturns exec => exact h₁ sub₁ _ _ _ exec
  fork := by
    intro _ _ _ _ first second h₁ h₂ sub _ acts _ exec
    obtain ⟨sub₁, sub₂⟩ := Code.sublist_fork sub
    cases exec with
    | forkTrue exec => exact (h₁ sub₁ _ _ _ exec).cons (by simp)
    | forkFalse exec => exact (h₂ sub₂ _ _ _ exec).cons (by simp)
  loop := by
    intro _ _ _ _ _ h₁ h₂ sub _ acts _ exec
    obtain ⟨sub₁, sub₂⟩ := Code.sublist_loop sub
    exact covered_loop (h₁ sub₁) (h₂ sub₂) exec

/-- The code of a call covers what it calls, and leaves that to the code of the arguments which this
    calls. -/
theorem CallsWith.covers {callee : Callee} {es : List Expr} {vs : List Value} {lent : Bool}
    {atArgs calling : Code} (calls : CallsWith env names callee es vs lent atArgs calling)
    (lends : lent → Lends env names parts callee es vs atArgs calling)
    (h : Covers env parts atArgs) : Covers env parts (.seq atArgs calling) := by
  intro sub p acts stop exec
  obtain ⟨sub₁, _⟩ := Code.sublist_seq sub
  cases exec with
  | seqReturns exec => exact h sub₁ _ _ _ exec
  | seq exec exec' =>
      intro before q symbol operands after whole
      rcases split_append whole with ⟨early, rfl, rfl⟩ | ⟨middle, rfl, eq⟩
      · obtain ⟨result, dispatches⟩ := calls.dispatches
        have stays := exec'.mem_traces
        rw [dispatches.traces.1] at stays
        cases stop with
        | none => cases stays.2
        | some r =>
            have made : Made env parts _ ([] ++ _) (after ++ []) := .intro calls lends sub exec exec'
            simpa using made
      · exact (h sub₁ _ _ _ exec before q symbol operands middle eq).within [] _

theorem Covers.regroups {first second : Code} (h : Covers env parts second)
    (regroups : first.Regroups second) : Covers env parts first :=
  fun sub p acts stop exec => h (regroups.parts ▸ sub) p acts stop (regroups.exec exec)

theorem Negates.silent (negates : Negates env v code w) : code.All Part.Silent := by
  cases negates with
  | intro loads => exact Code.all_seq.mpr ⟨loads.silent, by simp [Part.Silent, Instr.callee?]⟩

/-- An operand that is coerced. -/
theorem Coerces.covers (lent : Bool) {e : Expr} {atOperand coercing : Code}
    (coerces : Coerces env (if lent then v.borrowed else v) coercing w)
    (evaluates : Evaluates env names (.expr e) [v] atOperand)
    (lends : lent → Lends env names parts .boolean [e] [v] (.seq atOperand .skip) coercing)
    (h : Covers env parts atOperand) : Covers env parts (.seq atOperand coercing) := by
  have adds := adds_covers env parts
  cases coerces with
  | already => exact adds.seq h adds.skip
  | calls _ dispatches =>
      have calls : CallsWith env names .boolean [e] [v] lent (.seq atOperand .skip) coercing :=
        ⟨.cons evaluates .nil, _, by cases lent <;> exact dispatches⟩
      exact (calls.covers lends (adds.seq h adds.skip)).regroups ((Code.regroups_skip _).seq_left _)

theorem Tests.covers {e : Expr} {atOperand testing : Code} {flag : Operand}
    (tests : Tests env v testing flag) (evaluates : Evaluates env names (.expr e) [v] atOperand)
    (h : Covers env parts atOperand) : Covers env parts (.seq atOperand testing) := by
  have adds := adds_covers env parts
  cases tests with
  | intro coerces loads =>
      exact (adds.seq (coerces.covers false evaluates (by simp) h) (adds.silent loads.silent)).regroups
        (Code.regroups_assoc _ _ _)

theorem Operates.covers {op : BinaryOperator} {left right : Expr} {l r : Value}
    {atLeft atRight operating : Code} (operates : Operates env op l r operating v)
    (onLeft : Evaluates env names (.expr left) [l] atLeft)
    (onRight : Evaluates env names (.expr right) [r] atRight) (h₁ : Covers env parts atLeft)
    (h₂ : Covers env parts atRight) :
    Covers env parts (.seq atLeft (.seq atRight operating)) := by
  have adds := adds_covers env parts
  have called : ∀ {calling result}, Dispatches env (.method l.type op.method) [l, r] calling result →
      Covers env parts (.seq (.seq atLeft atRight) calling) := by
    intro calling _ dispatches
    have calls : CallsWith env names (.method l.type op.method) [left, right] [l, r] false
        (.seq atLeft (.seq atRight .skip)) calling :=
      ⟨.cons onLeft (.cons onRight .nil), _, dispatches⟩
    exact (calls.covers (by simp) (adds.seq h₁ (adds.seq h₂ adds.skip))).regroups
      (((Code.regroups_skip _).seq_right _).seq_left _)
  refine Covers.regroups ?_ (Code.regroups_assoc _ _ _)
  cases operates with
  | plain _ _ dispatches => exact called dispatches
  | negated _ _ dispatches _ negates =>
      exact (adds.seq (called dispatches) (adds.silent negates.silent)).regroups
        (Code.regroups_assoc _ _ _)

theorem Decides.covers {connective : Connective} {right : Expr} {l r : Value} {flag : Operand}
    {atRight : Code} (decides : Decides env connective l r flag atRight code v)
    (onRight : Evaluates env names (.expr right) [r] atRight) (h : Covers env parts atRight) :
    Covers env parts code := by
  have adds := adds_covers env parts
  cases decides with
  | alike _ places releases places' _ joins =>
      have onRight := adds.seq h (adds.seq (adds.silent places.silent) (releases.adds adds))
      have onLeft := adds.silent places'.silent
      exact adds.seq (adds.sides (adds.seq onRight adds.jump) (adds.seq onLeft adds.jump))
        (adds.silent joins.silent)
  | flags _ tests releases =>
      have onRight := tests.covers onRight h
      exact adds.seq (adds.seq (adds.sides (adds.seq onRight adds.jump) (adds.seq adds.skip adds.jump))
        (adds.instr (by rfl))) (releases.adds adds)

theorem Connects.covers {connective : Connective} {left right : Expr} {l r : Value}
    {atLeft atRight : Code} (connects : Connects env connective l r atLeft atRight code v)
    (onLeft : Evaluates env names (.expr left) [l] atLeft)
    (onRight : Evaluates env names (.expr right) [r] atRight) (h₁ : Covers env parts atLeft)
    (h₂ : Covers env parts atRight) : Covers env parts code := by
  have adds := adds_covers env parts
  intro sub
  have whole := connects
  cases connects with
  | intro tests decides =>
      cases tests with
      | intro coerces loads =>
          have coerced := coerces.covers true onLeft
            (fun _ => .intro onLeft onRight whole sub (by simp [Code.parts])) h₁
          have tested := (adds.seq coerced (adds.silent loads.silent)).regroups
            (Code.regroups_assoc _ _ _)
          exact (adds.seq tested (decides.covers onRight h₂)).regroups (Code.regroups_assoc _ _ _) sub

theorem Chooses.covers {test : Expr} {t a b : Value} {atTest atTrue atFalse : Code}
    (chooses : Chooses env t a b atTest atTrue atFalse code v)
    (onTest : Evaluates env names (.expr test) [t] atTest) (h₁ : Covers env parts atTest)
    (h₂ : Covers env parts atTrue) (h₃ : Covers env parts atFalse) : Covers env parts code := by
  have adds := adds_covers env parts
  cases chooses with
  | intro _ tests places places' _ joins =>
      have onTrue := adds.seq h₂ (adds.silent places.silent)
      have onFalse := adds.seq h₃ (adds.silent places'.silent)
      exact adds.seq (tests.covers onTest h₁)
        (adds.seq (adds.sides (adds.seq onTrue adds.jump) (adds.seq onFalse adds.jump))
          (adds.silent joins.silent))

theorem Indexes.covers {container position : Value} {atContainer atPosition : Code}
    (indexes : Indexes env container position atContainer atPosition code v)
    (h₁ : Covers env parts atContainer) (h₂ : Covers env parts atPosition) :
    Covers env parts code := by
  have adds := adds_covers env parts
  cases indexes with
  | intro _ _ _ loads loads' releases =>
      exact adds.seq h₁ (adds.seq h₂ (adds.seq (adds.silent loads.silent)
        (adds.seq (adds.silent loads'.silent) (adds.seq (adds.instr (by rfl)) (releases.adds adds)))))

theorem Evaluates.covers {phrase : Phrase} {vs : List Value}
    (evaluates : Evaluates env names phrase vs code) : Covers env parts code := by
  have adds := adds_covers env parts
  induction evaluates with
  | literal | nil => exact adds.skip
  | name =>
      intro _ _ _ _ exec
      cases exec
      exact covered_of_ne (by simp)
  | binary left right operates ih₁ ih₂ => exact operates.covers left right ih₁ ih₂
  | not operand coerces negates ih =>
      exact (adds.seq (coerces.covers false operand (by simp) ih) (adds.silent negates.silent)).regroups
        (Code.regroups_assoc _ _ _)
  | and left right connects ih₁ ih₂ | or left right connects ih₁ ih₂ =>
      exact connects.covers left right ih₁ ih₂
  | ternary test _ _ chooses ih₁ ih₂ ih₃ => exact chooses.covers test ih₁ ih₂ ih₃
  | index _ _ indexes ih₁ ih₂ => exact indexes.covers ih₁ ih₂
  | call _ evaluates dispatches ih =>
      have calls : CallsWith env _ _ _ _ false _ _ := ⟨evaluates, _, dispatches⟩
      exact calls.covers (by simp) ih
  | cons _ _ ih₁ ih₂ => exact adds.seq ih₁ ih₂

/-- Whatever carrying out statements calls for the source is called with arguments that were evaluated
    right before. -/
theorem Lowers.covers {work : Work} {ended : Bool}
    (lowers : Lowers env work names names' ended code) (outer : names.Outer) :
    Covers env parts code :=
  (lowers.adds (adds_covers env parts) (fun _ evaluates => evaluates.covers)
    (fun _ evaluates tests => tests.covers evaluates evaluates.covers) outer).1

end

end Translation

end LlvmBackend
