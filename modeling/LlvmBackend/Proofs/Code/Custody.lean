import LlvmBackend.Proofs.Code
import LlvmBackend.Proofs.Ir.Ledger

/-! # Code that keeps track of slots

`Code.Runs` says that the ledger of slots allows a piece of code to be carried out, whatever way
control takes that its flags allow, and what holds behind it. There is one rule for each form of code.
Main statement: walks through code that runs from the start tear slots down soundly
(`Code.Runs.safe`).
-/

namespace LlvmBackend

open Ir

/-- What registers stand for, and what became of slots. -/
structure Custody where
  course : Course
  ledger : Ledger

namespace Custody

variable (custody : Custody)

def start : Custody := ⟨.start, .start⟩

/-- What an operand stands for. -/
def eval (operand : Operand) : Operand := operand.under custody.course.value

/-- Behind an instruction. -/
def put (released : Bool) (i : Instr) : Custody :=
  ⟨custody.course.put i, custody.ledger.put released (i.under custody.course.value)⟩

/-- Behind a block. -/
def leave (block : BlockId) : Custody := ⟨custody.course.leave block, custody.ledger.settle⟩

/-- An instruction can be carried out soundly. -/
def Admits (released : Bool) (i : Instr) : Prop :=
  custody.ledger.Admits released (i.under custody.course.value)

/-- A flag can have a value. -/
def MayBe (flag : Operand) (taken : Bool) : Prop :=
  ∀ value, custody.eval flag = .bool value → taken = value

/-- Moves can be carried out if their flags allow them, and something holds behind them. -/
def Carries (hidden : Spot → Bool) : Custody → List Move → (Custody → Prop) → Prop
  | custody, [], post => post custody
  | custody, .instr p i :: moves, post =>
    custody.Admits (hidden p) i ∧ (custody.put (hidden p) i).Carries hidden moves post
  | custody, .jump p _ :: moves, post => (custody.leave p.block).Carries hidden moves post
  | custody, .branch p flag taken _ :: moves, post =>
    custody.MayBe flag taken → (custody.leave p.block).Carries hidden moves post
  | custody, .ret _ _ :: moves, post =>
    Carries hidden ⟨custody.course, custody.ledger.settle⟩ moves post

variable {custody} {hidden : Spot → Bool} {post post' : Custody → Prop}

theorem carries_append {first second : List Move} :
    custody.Carries hidden (first ++ second) post ↔
      custody.Carries hidden first fun later => later.Carries hidden second post := by
  induction first generalizing custody with
  | nil => rfl
  | cons move first ih => cases move <;> simp only [List.cons_append, Carries, ih]

theorem Carries.mono {moves : List Move} (h : custody.Carries hidden moves post)
    (le : ∀ later, post later → post' later) : custody.Carries hidden moves post' := by
  induction moves generalizing custody with
  | nil => exact le custody h
  | cons move moves ih =>
      cases move with
      | instr => exact ⟨h.1, ih h.2⟩
      | jump | ret => exact ih h
      | branch => exact fun mayBe => ih (h mayBe)

/-- If branches go where their flags say, the ledger allows the moves. -/
theorem Carries.allows {moves : List Move} (h : custody.Carries hidden moves post)
    (consistent : Consistent (custody.course.resolved moves)) :
    custody.ledger.Allows hidden (custody.course.resolved moves) := by
  induction moves generalizing custody with
  | nil => trivial
  | cons move moves ih =>
      have onward : Consistent ((custody.course.after move).resolved moves) := by
        intro p value taken target mem
        exact consistent p value taken target (List.mem_cons_of_mem _ mem)
      cases move with
      | instr => exact ⟨h.1, ih h.2 onward⟩
      | jump | ret => exact ih h onward
      | branch p flag taken target =>
          have mayBe : custody.MayBe flag taken := by
            intro value eq
            apply consistent p value taken target
            rw [← eq]
            exact List.mem_cons_self
          exact ih (h mayBe) onward

end Custody

namespace Code

/-- Code can be carried out, and something holds behind it if control does not leave the function. -/
def Runs (code : Code) (custody : Custody) (post : Custody → Prop) : Prop :=
  ∀ hidden p acts stop, Exec p code acts stop →
    (∀ act ∈ acts, act.Agrees fun spot => hidden spot) →
    custody.Carries hidden (Act.moves acts) fun later => stop.isSome → post later

variable {custody : Custody} {post post' middle : Custody → Prop} {first second code : Code}

theorem Runs.mono (h : code.Runs custody post) (le : ∀ later, post later → post' later) :
    code.Runs custody post' := by
  intro hidden p acts stop exec agree
  exact (h hidden p acts stop exec agree).mono fun later holds goesOn => le later (holds goesOn)

theorem runs_skip (h : post custody) : skip.Runs custody post := by
  intro hidden p acts stop exec agree
  cases exec
  exact fun _ => h

theorem runs_read {name : String} {rebound : Bool} {value : Value} (h : post custody) :
    (read name rebound value).Runs custody post := by
  intro hidden p acts stop exec agree
  cases exec
  exact fun _ => h

theorem runs_slot {name : String} {type : IrType} (h : post custody) :
    (slot name type).Runs custody post := by
  intro hidden p acts stop exec agree
  cases exec
  exact fun _ => h

theorem runs_ret {value : Option TypedOperand} : (ret value).Runs custody post := by
  intro hidden p acts stop exec agree
  cases exec
  intro goesOn
  cases goesOn

theorem runs_jump {source target : BlockId} (h : post (custody.leave source)) :
    (jump source target).Runs custody post := by
  intro hidden p acts stop exec agree
  cases exec
  exact fun _ => h

theorem runs_instr {role : Role} {i : Instr} (other : role ≠ .release) (admits : custody.Admits false i)
    (h : post (custody.put false i)) : (instr role i).Runs custody post := by
  intro hidden p acts stop exec agree
  cases exec
  have mark := agree _ (List.mem_singleton_self _)
  have eq : hidden p = false := by
    rw [Bool.eq_false_iff]
    exact fun h => other (mark.mp h)
  simp only [Act.moves_move, Act.moves_nil, Custody.Carries, eq]
  exact ⟨admits, fun _ => h⟩

theorem runs_release {i : Instr} (admits : custody.Admits true i) (h : post (custody.put true i)) :
    (instr .release i).Runs custody post := by
  intro hidden p acts stop exec agree
  cases exec
  have mark := agree _ (List.mem_singleton_self _)
  have eq : hidden p = true := mark.mpr rfl
  simp only [Act.moves_move, Act.moves_nil, Custody.Carries, eq]
  exact ⟨admits, fun _ => h⟩

theorem runs_seq (h : first.Runs custody fun later => second.Runs later post) :
    (seq first second).Runs custody post := by
  intro hidden p acts stop exec agree
  cases exec with
  | seq exec₁ exec₂ =>
      obtain ⟨agree₁, agree₂⟩ := List.forall_mem_append.mp agree
      rw [Act.moves_append, Custody.carries_append]
      apply (h _ _ _ _ exec₁ agree₁).mono
      intro later goesOn
      exact goesOn rfl _ _ _ _ exec₂ agree₂
  | seqReturns exec =>
      apply (h _ _ _ _ exec agree).mono
      intro later _ goesOn
      cases goesOn

theorem runs_fork {role : Role} {flag : Operand} {onTrue onFalse : BlockId}
    {whenTrue whenFalse : Code}
    (atTrue : custody.MayBe flag true → ∀ block, whenTrue.Runs (custody.leave block) post)
    (atFalse : custody.MayBe flag false → ∀ block, whenFalse.Runs (custody.leave block) post) :
    (fork role flag onTrue onFalse whenTrue whenFalse).Runs custody post := by
  intro hidden p acts stop exec agree
  cases exec with
  | forkTrue exec =>
      intro mayBe
      exact atTrue mayBe _ _ _ _ _ exec (List.forall_mem_cons.mp agree).2
  | forkFalse exec =>
      intro mayBe
      exact atFalse mayBe _ _ _ _ _ exec (List.forall_mem_cons.mp agree).2

/-- Two sides, whatever the flag is. -/
theorem runs_sides {taken : Bool} {flag : Operand} {a b : BlockId}
    (atFirst : ∀ block, first.Runs (custody.leave block) post)
    (atSecond : ∀ block, second.Runs (custody.leave block) post) :
    (sides taken flag a b first second).Runs custody post := by
  cases taken with
  | true => exact runs_fork (fun _ => atFirst) fun _ => atSecond
  | false => exact runs_fork (fun _ => atSecond) fun _ => atFirst

/-- A loop, by what holds before its test each time. -/
theorem runs_loop {body fin : BlockId} {test turn : Code} {flag : Operand}
    {invariant : Custody → Prop} (h : invariant custody)
    (atTest : ∀ custody, invariant custody → test.Runs custody middle)
    (atTurn : ∀ custody block, middle custody → turn.Runs (custody.leave block) invariant)
    (atEnd : ∀ custody block, middle custody → post (custody.leave block)) :
    (loop body fin test flag turn).Runs custody post := by
  intro hidden p acts stop exec agree
  generalize eq : loop body fin test flag turn = code at exec
  induction exec generalizing custody with
  | loopEnds exec =>
      cases eq
      obtain ⟨agree, -⟩ := List.forall_mem_append.mp agree
      rw [Act.moves_append, Custody.carries_append]
      apply (atTest _ h _ _ _ _ exec agree).mono
      intro later holds _ _
      exact atEnd later _ (holds rfl)
  | loopTurns exec execTurn _ _ _ ih =>
      cases eq
      obtain ⟨agree, agree'⟩ := List.forall_mem_append.mp agree
      obtain ⟨agreeTurn, agreeRest⟩ := List.forall_mem_append.mp (List.forall_mem_cons.mp agree').2
      rw [Act.moves_append, Act.moves_move, Act.moves_append, Custody.carries_append]
      apply (atTest _ h _ _ _ _ exec agree).mono
      intro later holds _
      rw [Custody.carries_append]
      apply (atTurn later _ (holds rfl) _ _ _ _ execTurn agreeTurn).mono
      intro again holds
      exact ih (holds rfl) agreeRest rfl
  | turnReturns exec execTurn =>
      cases eq
      obtain ⟨agree, agree'⟩ := List.forall_mem_append.mp agree
      rw [Act.moves_append, Act.moves_move, Custody.carries_append]
      apply (atTest _ h _ _ _ _ exec agree).mono
      intro later holds _
      apply (atTurn later _ (holds rfl) _ _ _ _ execTurn (List.forall_mem_cons.mp agree').2).mono
      intro _ _ goesOn
      cases goesOn
  | testReturns exec =>
      cases eq
      apply (atTest _ h _ _ _ _ exec agree).mono
      intro _ _ goesOn
      cases goesOn
  | skip | seq | seqReturns | instr | read | slot | jump | forkTrue | forkFalse | ret => cases eq

theorem Runs.safe {table : Table} {hidden : Spot → Bool} {p q : Spot} {moves : List Move}
    {stop : Option Spot} (runs : code.Runs .start fun _ => True)
    (laid : Laid table (fun spot => hidden spot) p code q)
    (returns : ∀ acts stop, Exec p code acts stop → stop = none)
    (walk : Walk table (some p) moves stop) (consistent : Consistent (Course.start.resolved moves)) :
    Safe hidden (Course.start.resolved moves) := by
  cases laid.follows walk with
  | beyond exec _ => cases returns _ _ exec
  | within exec eq _ =>
      have carries := runs hidden _ _ _ exec (exec.marked laid)
      rw [eq, Custody.carries_append] at carries
      exact (carries.allows consistent).safe

end Code

end LlvmBackend
