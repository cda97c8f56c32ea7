import LlvmBackend.Proofs.Ir.Walk
import LlvmBackend.Value

/-! # Structured code

What the lowering of a tree emits is structured: it is entered at one spot and left at one spot, or
by a return. `Code` is that structure without the places of its instructions. `Laid` says where a
piece of code stands in a function, `Exec` what carrying it out can be. Main statement: a walk from
the start of a piece of code carries it out and goes on behind it, or stops on the way
(`Laid.follows`).
-/

namespace LlvmBackend

open Ir

/-- Why an instruction or a branch was emitted. -/
inductive Role where
  | plain
  /-- To tear down a value that is not needed any more. -/
  | release
  /-- To give a variable a value of a type. -/
  | write (name : String) (type : TypeId)
  /-- To pass on the result of the function. -/
  | result
  deriving DecidableEq, Repr

/-- A piece of code. Blocks go by their places in the function. -/
inductive Code where
  | skip
  | seq (first second : Code)
  | instr (role : Role) (instr : Instr)
  /-- A name is looked up, which emits nothing; `rebound` says whether the body binds it. -/
  | read (name : String) (rebound : Bool) (value : Value)
  /-- A variable gets a slot, which stands before all code. -/
  | slot (name : String) (type : IrType)
  | jump (source target : BlockId)
  /-- A branch whose sides meet again where both end. -/
  | fork (role : Role) (flag : Operand) (onTrue onFalse : BlockId) (whenTrue whenFalse : Code)
  /-- A loop, which starts with its test and goes back there after each turn. -/
  | loop (body fin : BlockId) (test : Code) (flag : Operand) (turn : Code)
  | ret (value : Option TypedOperand)

namespace Code

/-- The code of a branch to one of two sides, by whether the flag has a value. -/
def sides (taken : Bool) (flag : Operand) (first second : BlockId)
    (atFirst atSecond : Code) : Code :=
  if taken then .fork .plain flag first second atFirst atSecond
  else .fork .plain flag second first atSecond atFirst

/-- Code that goes on at a block unless it left the function. -/
def leading (code : Code) (ended : Bool) (source fin : BlockId) : Code :=
  if ended then code else .seq code (.jump source fin)

end Code

/-- What is observed while code is carried out: the moves of control and the names looked up. -/
inductive Act where
  | move (role : Role) (move : Move)
  | read (name : String) (rebound : Bool) (value : Value)
  deriving DecidableEq, Repr

namespace Act

def move? : Act → Option Move
  | .move _ m => some m
  | .read _ _ _ => none

/-- The moves among what was observed. -/
def moves (acts : List Act) : List Move := acts.filterMap move?

@[simp] theorem moves_nil : moves [] = [] := rfl

@[simp] theorem moves_move (role : Role) (m : Move) (acts : List Act) :
    moves (.move role m :: acts) = m :: moves acts := rfl

@[simp] theorem moves_read (name : String) (rebound : Bool) (value : Value) (acts : List Act) :
    moves (.read name rebound value :: acts) = moves acts := rfl

@[simp] theorem moves_append (first second : List Act) :
    moves (first ++ second) = moves first ++ moves second := by
  simp [moves]

/-- The marks of spots say whether an instruction or a branch releases values. -/
def Agrees (marks : Spot → Prop) : Act → Prop
  | .move role (.instr spot _) | .move role (.branch spot _ _ _) => marks spot ↔ role = .release
  | _ => True

end Act

/-! ## Where code stands -/

/-- Code stands at a spot, and control that leaves it without a return goes on at another one.
    The marked spots are those of the instructions and branches that release values. -/
inductive Laid (table : Table) (marks : Spot → Prop) : Spot → Code → Spot → Prop where
  | skip : Laid table marks p .skip p
  | seq :
      Laid table marks p first q →
      Laid table marks q second r →
      Laid table marks p (.seq first second) r
  | instr :
      table.Holds p i →
      (marks p ↔ role = .release) →
      Laid table marks p (.instr role i) p.next
  | read : Laid table marks p (.read name rebound value) p
  | slot : Laid table marks p (.slot name type) p
  | jump : table.Ends p (.br target) → Laid table marks p (.jump p.block target) (.start target)
  | fork :
      table.Ends p (.condBr flag onTrue onFalse) →
      (marks p ↔ role = .release) →
      Laid table marks (.start onTrue) whenTrue q →
      Laid table marks (.start onFalse) whenFalse q →
      Laid table marks p (.fork role flag onTrue onFalse whenTrue whenFalse) q
  | loop :
      Laid table marks p test q →
      table.Ends q (.condBr flag body fin) →
      ¬ marks q →
      Laid table marks (.start body) turn p →
      Laid table marks p (.loop body fin test flag turn) (.start fin)
  | ret : table.Ends p (.ret value) → Laid table marks p (.ret value) q

/-! ## Carrying code out -/

/-- Code is carried out from a spot, up to where control stands then. -/
inductive Exec : Spot → Code → List Act → Option Spot → Prop where
  | skip : Exec p .skip [] (some p)
  | seq : Exec p first as (some q) → Exec q second bs r → Exec p (.seq first second) (as ++ bs) r
  | seqReturns : Exec p first as none → Exec p (.seq first second) as none
  | instr : Exec p (.instr role i) [.move role (.instr p i)] (some p.next)
  | read : Exec p (.read name rebound value) [.read name rebound value] (some p)
  | slot : Exec p (.slot name type) [] (some p)
  | jump :
      Exec p (.jump p.block target) [.move .plain (.jump p target)] (some (.start target))
  | forkTrue :
      Exec (.start onTrue) whenTrue as r →
      Exec p (.fork role flag onTrue onFalse whenTrue whenFalse)
        (.move role (.branch p flag true onTrue) :: as) r
  | forkFalse :
      Exec (.start onFalse) whenFalse as r →
      Exec p (.fork role flag onTrue onFalse whenTrue whenFalse)
        (.move role (.branch p flag false onFalse) :: as) r
  | loopEnds :
      Exec p test as (some q) →
      Exec p (.loop body fin test flag turn)
        (as ++ [.move .plain (.branch q flag false fin)]) (some (.start fin))
  | loopTurns :
      Exec p test as (some q) →
      Exec (.start body) turn bs (some p') →
      Exec p' (.loop body fin test flag turn) cs r →
      Exec p (.loop body fin test flag turn)
        (as ++ .move .plain (.branch q flag true body) :: (bs ++ cs)) r
  | turnReturns :
      Exec p test as (some q) →
      Exec (.start body) turn bs none →
      Exec p (.loop body fin test flag turn)
        (as ++ .move .plain (.branch q flag true body) :: bs) none
  | testReturns : Exec p test as none → Exec p (.loop body fin test flag turn) as none
  | ret : Exec p (.ret value) [.move .plain (.ret p value)] none

namespace Exec

variable {table : Table} {marks : Spot → Prop}

/-- Carrying out code is a walk, and it ends behind the code if it does not leave the function. -/
theorem walk {p q : Spot} {code : Code} {acts : List Act} {stop : Option Spot}
    (exec : Exec p code acts stop) (laid : Laid table marks p code q) :
    Walk table (some p) (Act.moves acts) stop ∧ ∀ r ∈ stop, r = q := by
  induction exec generalizing q with
  | skip =>
      cases laid
      exact ⟨.nil, by simp⟩
  | seq _ _ ih₁ ih₂ =>
      cases laid with
      | seq laid₁ laid₂ =>
          obtain ⟨walk₁, stop₁⟩ := ih₁ laid₁
          cases stop₁ _ rfl
          obtain ⟨walk₂, stop₂⟩ := ih₂ laid₂
          exact ⟨by simpa using walk₁.append walk₂, stop₂⟩
  | seqReturns _ ih =>
      cases laid with
      | seq laid₁ _ => exact ⟨(ih laid₁).1, by simp⟩
  | instr =>
      cases laid with
      | instr holds _ => exact ⟨.single (.instr holds), by simp⟩
  | read | slot =>
      cases laid
      exact ⟨.nil, by simp⟩
  | jump =>
      cases laid with
      | jump ends => exact ⟨.single (.jump ends), by simp⟩
  | forkTrue _ ih =>
      cases laid with
      | fork ends _ laid₁ _ =>
          obtain ⟨walk, stop⟩ := ih laid₁
          exact ⟨.cons (.onTrue ends) walk, stop⟩
  | forkFalse _ ih =>
      cases laid with
      | fork ends _ _ laid₂ =>
          obtain ⟨walk, stop⟩ := ih laid₂
          exact ⟨.cons (.onFalse ends) walk, stop⟩
  | loopEnds _ ih =>
      cases laid with
      | loop laidTest ends _ _ =>
          obtain ⟨walk, stop⟩ := ih laidTest
          cases stop _ rfl
          exact ⟨by simpa using walk.append (.single (.onFalse ends)), by simp⟩
  | loopTurns _ _ _ ihTest ihTurn ihRest =>
      cases laid with
      | loop laidTest ends unmarked laidTurn =>
          obtain ⟨walkTest, stopTest⟩ := ihTest laidTest
          cases stopTest _ rfl
          obtain ⟨walkTurn, stopTurn⟩ := ihTurn laidTurn
          cases stopTurn _ rfl
          obtain ⟨walkRest, stopRest⟩ := ihRest (.loop laidTest ends unmarked laidTurn)
          exact ⟨by simpa using walkTest.append (.cons (.onTrue ends) (walkTurn.append walkRest)),
            stopRest⟩
  | turnReturns _ _ ihTest ihTurn =>
      cases laid with
      | loop laidTest ends _ laidTurn =>
          obtain ⟨walkTest, stopTest⟩ := ihTest laidTest
          cases stopTest _ rfl
          obtain ⟨walkTurn, _⟩ := ihTurn laidTurn
          exact ⟨by simpa using walkTest.append (.cons (.onTrue ends) walkTurn), by simp⟩
  | testReturns _ ih =>
      cases laid with
      | loop laidTest _ _ _ => exact ⟨(ih laidTest).1, by simp⟩
  | ret =>
      cases laid with
      | ret ends => exact ⟨.single (.ret ends), by simp⟩

/-- The marks tell which instructions and branches release values. -/
theorem marked {p q : Spot} {code : Code} {acts : List Act} {stop : Option Spot}
    (exec : Exec p code acts stop) (laid : Laid table marks p code q) :
    ∀ act ∈ acts, act.Agrees marks := by
  induction exec generalizing q with
  | skip | read | slot => simp [Act.Agrees]
  | jump | ret => simp [Act.Agrees]
  | seq exec₁ _ ih₁ ih₂ =>
      cases laid with
      | seq laid₁ laid₂ =>
          cases (exec₁.walk laid₁).2 _ rfl
          exact List.forall_mem_append.mpr ⟨ih₁ laid₁, ih₂ laid₂⟩
  | seqReturns _ ih =>
      cases laid with
      | seq laid₁ _ => exact ih laid₁
  | instr =>
      cases laid with
      | instr _ mark => simpa [Act.Agrees] using mark
  | forkTrue _ ih =>
      cases laid with
      | fork _ mark laid₁ _ => exact List.forall_mem_cons.mpr ⟨mark, ih laid₁⟩
  | forkFalse _ ih =>
      cases laid with
      | fork _ mark _ laid₂ => exact List.forall_mem_cons.mpr ⟨mark, ih laid₂⟩
  | loopEnds execTest ih =>
      cases laid with
      | loop laidTest _ unmarked _ =>
          cases (execTest.walk laidTest).2 _ rfl
          exact List.forall_mem_append.mpr ⟨ih laidTest, by simpa [Act.Agrees] using unmarked⟩
  | loopTurns execTest execTurn _ ihTest ihTurn ihRest =>
      cases laid with
      | loop laidTest ends unmarked laidTurn =>
          cases (execTest.walk laidTest).2 _ rfl
          cases (execTurn.walk laidTurn).2 _ rfl
          refine List.forall_mem_append.mpr ⟨ihTest laidTest, List.forall_mem_cons.mpr ⟨?_, ?_⟩⟩
          · simpa [Act.Agrees] using unmarked
          · exact List.forall_mem_append.mpr
              ⟨ihTurn laidTurn, ihRest (.loop laidTest ends unmarked laidTurn)⟩
  | turnReturns execTest _ ihTest ihTurn =>
      cases laid with
      | loop laidTest _ unmarked laidTurn =>
          cases (execTest.walk laidTest).2 _ rfl
          refine List.forall_mem_append.mpr ⟨ihTest laidTest, List.forall_mem_cons.mpr ⟨?_, ?_⟩⟩
          · simpa [Act.Agrees] using unmarked
          · exact ihTurn laidTurn
  | testReturns _ ih =>
      cases laid with
      | loop laidTest _ _ _ => exact ih laidTest

/-- A branch to one of two sides goes by the flag. -/
theorem sides_iff {p : Spot} {taken : Bool} {flag : Operand} {a b : BlockId} {first second : Code}
    {acts : List Act} {stop : Option Spot} :
    Exec p (.sides taken flag a b first second) acts stop ↔
      (∃ rest, acts = .move .plain (.branch p flag taken a) :: rest ∧
        Exec (.start a) first rest stop) ∨
      ∃ rest, acts = .move .plain (.branch p flag (!taken) b) :: rest ∧
        Exec (.start b) second rest stop := by
  constructor
  · intro exec
    cases taken with
    | true =>
        cases exec with
        | forkTrue exec => exact .inl ⟨_, rfl, exec⟩
        | forkFalse exec => exact .inr ⟨_, rfl, exec⟩
    | false =>
        cases exec with
        | forkTrue exec => exact .inr ⟨_, rfl, exec⟩
        | forkFalse exec => exact .inl ⟨_, rfl, exec⟩
  · rintro (⟨rest, rfl, exec⟩ | ⟨rest, rfl, exec⟩)
    · cases taken with
      | true => exact .forkTrue exec
      | false => exact .forkFalse exec
    · cases taken with
      | true => exact .forkFalse exec
      | false => exact .forkTrue exec

/-- Code that goes on at a block does so from the block that it stops in. -/
theorem seq_jump {p : Spot} {code : Code} {source fin : BlockId} {acts : List Act}
    {stop : Option Spot} (exec : Exec p (.seq code (.jump source fin)) acts stop) :
    (Exec p code acts none ∧ stop = none) ∨
      ∃ rest q, Exec p code rest (some q) ∧ q.block = source ∧
        acts = rest ++ [.move .plain (.jump q fin)] ∧ stop = some (.start fin) := by
  cases exec with
  | seqReturns exec => exact .inl ⟨exec, rfl⟩
  | seq exec jump =>
      cases jump
      exact .inr ⟨_, _, exec, rfl, rfl, rfl⟩

end Exec

/-! ## Walks through code -/

namespace Laid

variable {table : Table} {marks : Spot → Prop}

/-- Code that stands somewhere can be carried out. -/
theorem exec {p q : Spot} {code : Code} (laid : Laid table marks p code q) :
    ∃ acts stop, Exec p code acts stop := by
  induction laid with
  | skip => exact ⟨_, _, .skip⟩
  | seq laid₁ _ ih₁ ih₂ =>
      obtain ⟨as, stop, exec₁⟩ := ih₁
      cases stop with
      | none => exact ⟨_, _, .seqReturns exec₁⟩
      | some q =>
          cases (exec₁.walk laid₁).2 _ rfl
          obtain ⟨bs, stop, exec₂⟩ := ih₂
          exact ⟨_, _, .seq exec₁ exec₂⟩
  | instr => exact ⟨_, _, .instr⟩
  | read => exact ⟨_, _, .read⟩
  | slot => exact ⟨_, _, .slot⟩
  | jump => exact ⟨_, _, .jump⟩
  | fork _ _ _ _ ih _ =>
      obtain ⟨as, stop, exec⟩ := ih
      exact ⟨_, _, .forkTrue exec⟩
  | loop _ _ _ _ ih _ =>
      obtain ⟨as, stop, exec⟩ := ih
      cases stop with
      | none => exact ⟨_, _, .testReturns exec⟩
      | some q => exact ⟨_, _, .loopEnds exec⟩
  | ret => exact ⟨_, _, .ret⟩

end Laid

/-- What a walk from the start of a piece of code is: it carries the code out and goes on behind it,
    or it stops on the way, where it could have gone on. -/
inductive Follows (table : Table) (p : Spot) (code : Code) (q : Spot) :
    List Move → Option Spot → Prop where
  | beyond :
      Exec p code acts (some q) →
      Walk table (some q) rest stop →
      Follows table p code q (Act.moves acts ++ rest) stop
  | within :
      Exec p code acts stop' →
      Act.moves acts = moves ++ more →
      (stop = none → more = [] ∧ stop' = none) →
      Follows table p code q moves stop

theorem Follows.single {table : Table} {p q : Spot} {code : Code} {role : Role} {m : Move}
    (exec : Exec p code [.move role m] (some q)) (walk : Walk table (some q) rest stop) :
    Follows table p code q (m :: rest) stop :=
  .beyond exec walk

namespace Laid

variable {table : Table} {marks : Spot → Prop}

theorem follows_nil {p q r : Spot} {code : Code} (laid : Laid table marks p code q) :
    Follows table p code q [] (some r) := by
  obtain ⟨acts, stop, exec⟩ := laid.exec
  exact .within exec (List.nil_append _).symm (by simp)

/-- A walk that carries code out and stops before what comes next can be continued. -/
theorem follows_stopped {p q r : Spot} {first code : Code} {acts : List Act}
    (laid : Laid table marks q code r) (eq : Act.moves acts = moves ++ more)
    (goesOn : ∀ bs stop, Exec q code bs stop → Exec p first (acts ++ bs) stop) :
    Follows table p first r moves (some s) := by
  obtain ⟨bs, stop, exec⟩ := laid.exec
  exact .within (goesOn bs stop exec) (by rw [Act.moves_append, eq, List.append_assoc]) (by simp)

/-- A walk through the first of two pieces of code goes on through the second. -/
theorem follows_seq {p q r : Spot} {first second : Code} (laid₁ : Laid table marks p first q)
    (laid₂ : Laid table marks q second r) (follows : Follows table p first q moves stop)
    (goesOn : ∀ rest, Walk table (some q) rest stop → Follows table q second r rest stop) :
    Follows table p (.seq first second) r moves stop := by
  cases follows with
  | beyond exec walk =>
      cases goesOn _ walk with
      | beyond exec₂ walk₂ =>
          rw [← List.append_assoc, ← Act.moves_append]
          exact .beyond (.seq exec exec₂) walk₂
      | within exec₂ eq stops =>
          exact .within (.seq exec exec₂) (by rw [Act.moves_append, eq, List.append_assoc]) stops
  | @within acts stop' _ more _ exec eq stops =>
      cases stop' with
      | none => exact .within (.seqReturns exec) eq stops
      | some q' =>
          cases (exec.walk laid₁).2 _ rfl
          cases stop with
          | none => exact absurd (stops rfl).2 (by simp)
          | some _ => exact follows_stopped laid₂ eq fun _ _ exec₂ => .seq exec exec₂

/-- A walk through a side of a branch is one through the branch. -/
theorem follows_side {p s q : Spot} {side code : Code} {role : Role} {move : Move}
    (follows : Follows table s side q moves stop)
    (enter : ∀ acts stop, Exec s side acts stop → Exec p code (.move role move :: acts) stop) :
    Follows table p code q (move :: moves) stop := by
  cases follows with
  | beyond exec walk =>
      rw [← List.cons_append, ← Act.moves_move role]
      exact .beyond (enter _ _ exec) walk
  | within exec eq stops =>
      exact .within (enter _ _ exec) (by rw [Act.moves_move, eq, List.cons_append]) stops

/-- A walk through a loop follows its test and its turns. It gets shorter with each turn. -/
theorem follows_loop {p q : Spot} {test turn : Code} {flag : Operand} {body fin : BlockId}
    (laidTest : Laid table marks p test q) (ends : table.Ends q (.condBr flag body fin))
    (unmarked : ¬ marks q) (laidTurn : Laid table marks (.start body) turn p)
    (followTest : ∀ moves, Walk table (some p) moves stop → Follows table p test q moves stop)
    (followTurn : ∀ moves, Walk table (some (.start body)) moves stop →
      Follows table (.start body) turn p moves stop)
    (moves : List Move) (walk : Walk table (some p) moves stop) :
    Follows table p (.loop body fin test flag turn) (.start fin) moves stop := by
  have laid := Laid.loop laidTest ends unmarked laidTurn
  cases followTest moves walk with
  | @within acts stop' _ more _ exec eq stops =>
      cases stop' with
      | none => exact .within (.testReturns exec) eq stops
      | some q' =>
          cases (exec.walk laidTest).2 _ rfl
          cases stop with
          | none => exact absurd (stops rfl).2 (by simp)
          | some _ =>
              exact .within (.loopEnds exec) (by rw [Act.moves_append, eq, List.append_assoc]) (by simp)
  | @beyond acts rest _ exec walk =>
      rcases walk.through_branch ends with ⟨rfl, rfl⟩ | ⟨rest, rfl, onward⟩ | ⟨rest, rfl, onward⟩
      · exact .within (.loopEnds exec)
          (by rw [Act.moves_append, List.append_assoc, List.nil_append]) (by simp)
      · cases followTurn rest onward with
        | @within bs stop' _ more _ execTurn eq stops =>
            have eq' : Act.moves (acts ++ .move .plain (.branch q flag true body) :: bs) =
                Act.moves acts ++ .branch q flag true body :: rest ++ more := by
              simp [eq]
            cases stop' with
            | none => exact .within (.turnReturns exec execTurn) eq' stops
            | some p' =>
                cases (execTurn.walk laidTurn).2 _ rfl
                cases stop with
                | none => exact absurd (stops rfl).2 (by simp)
                | some _ =>
                    exact follows_stopped laid eq' fun _ _ again => by
                      simpa using .loopTurns exec execTurn again
        | @beyond bs rest' _ execTurn back =>
            have again := follows_loop laidTest ends unmarked laidTurn followTest followTurn rest' back
            cases again with
            | @beyond cs rest'' _ execRest onward =>
                simpa using Follows.beyond (.loopTurns exec execTurn execRest) onward
            | within execRest eq stops =>
                exact .within (.loopTurns exec execTurn execRest) (by simp [eq]) stops
      · have past : Exec p (.loop body fin test flag turn) _ _ := .loopEnds exec
        simpa using Follows.beyond past onward
termination_by moves.length
decreasing_by
  subst_vars
  simp only [List.length_append, List.length_cons]
  omega

/-- A walk from the start of code carries it out and goes on behind it, or stops on the way. -/
theorem follows {p q : Spot} {code : Code} (laid : Laid table marks p code q)
    (walk : Walk table (some p) moves stop) : Follows table p code q moves stop := by
  induction laid generalizing moves stop with
  | skip => exact .beyond .skip walk
  | seq laid₁ laid₂ ih₁ ih₂ => exact follows_seq laid₁ laid₂ (ih₁ walk) fun _ rest => ih₂ rest
  | instr holds mark =>
      rcases walk.through_instr holds with ⟨rfl, rfl⟩ | ⟨rest, rfl, onward⟩
      · exact follows_nil (.instr holds mark)
      · exact .single .instr onward
  | read => exact .beyond .read walk
  | slot => exact .beyond .slot walk
  | jump ends =>
      rcases walk.through_jump ends with ⟨rfl, rfl⟩ | ⟨rest, rfl, onward⟩
      · exact follows_nil (show Laid table marks _ _ _ from .jump ends)
      · exact .single .jump onward
  | fork ends mark laid₁ laid₂ ih₁ ih₂ =>
      rcases walk.through_branch ends with ⟨rfl, rfl⟩ | ⟨rest, rfl, onward⟩ | ⟨rest, rfl, onward⟩
      · exact follows_nil (.fork ends mark laid₁ laid₂)
      · exact follows_side (ih₁ onward) fun _ _ => .forkTrue
      · exact follows_side (ih₂ onward) fun _ _ => .forkFalse
  | loop laidTest ends unmarked laidTurn ihTest ihTurn =>
      exact follows_loop laidTest ends unmarked laidTurn (fun _ => ihTest) (fun _ => ihTurn) _ walk
  | ret ends =>
      rcases walk.through_ret ends with ⟨rfl, rfl⟩ | ⟨rfl, rfl⟩
      · exact follows_nil (show Laid table marks _ _ _ from .ret ends)
      · exact .within .ret (List.append_nil [_]).symm (by simp)

end Laid

end LlvmBackend
