import LlvmBackend.Proofs.Code.Fills
import LlvmBackend.Proofs.Code.Traces
import LlvmBackend.Proofs.Ir.Course

/-! # Ways through code

`Code.Ways` says what holds of each way through a piece of code that goes on behind it, if branches go
where their flags say. There is one rule for each form of code. What registers stand for that the code
does not define stays as it was (`Exec.keeps`).
-/

namespace LlvmBackend

open Ir

/-- The call that a move makes. -/
def Ir.Move.call? : Move → Option Instr
  | .instr _ (.call dest returns callee args) => some (.call dest returns callee args)
  | _ => none

namespace Ir.Course

variable (course : Course)

/-- What an operand stands for. -/
def eval (operand : Operand) : Operand := operand.under course.value

/-- Behind some acts. -/
def behind (acts : List Act) : Course := (Act.moves acts).foldl Course.after course

/-- The calls that acts make, with what their operands stand for. -/
def calls (acts : List Act) : List Instr :=
  (course.resolved (Act.moves acts)).filterMap Move.call?

/-- Branches of some acts go where their flags say. -/
def Allows (acts : List Act) : Prop := Consistent (course.resolved (Act.moves acts))

/-- Registers outside a region stand for what they stood for before. -/
def Keeps (region : List Nat) (later : Course) : Prop :=
  ∀ n ∉ region, later.value n = course.value n

variable {course}

@[simp] theorem behind_nil : course.behind [] = course := rfl

@[simp] theorem behind_move (role : Role) (move : Move) (acts : List Act) :
    course.behind (.move role move :: acts) = (course.after move).behind acts := rfl

@[simp] theorem behind_append (first second : List Act) :
    course.behind (first ++ second) = (course.behind first).behind second := by
  simp [behind]

theorem resolved_append (first second : List Move) :
    course.resolved (first ++ second) =
      course.resolved first ++ (first.foldl Course.after course).resolved second := by
  induction first generalizing course with
  | nil => rfl
  | cons move first ih => exact congrArg _ ih

@[simp] theorem calls_nil : course.calls [] = [] := rfl

@[simp] theorem calls_append (first second : List Act) :
    course.calls (first ++ second) = course.calls first ++ (course.behind first).calls second := by
  simp [calls, resolved_append, behind]

@[simp] theorem calls_jump (role : Role) (p : Spot) (target : BlockId) (acts : List Act) :
    course.calls (.move role (.jump p target) :: acts) = (course.leave p.block).calls acts := rfl

theorem allows_append {first second : List Act} : course.Allows (first ++ second) ↔
    course.Allows first ∧ (course.behind first).Allows second := by
  simp only [Allows, Act.moves_append, resolved_append, Consistent, List.mem_append, or_imp,
    forall_and]
  rfl

/-! ## What stays as it was -/

theorem Keeps.refl (region : List Nat) : course.Keeps region course := fun _ _ => rfl

theorem Keeps.trans {region : List Nat} {later last : Course} (first : course.Keeps region later)
    (second : later.Keeps region last) : course.Keeps region last :=
  fun n other => (second n other).trans (first n other)

/-- An operand stands for what it stood for if it is no register of the region. -/
theorem Keeps.eval {region more : List Nat} {later : Course} {operand : Operand}
    (keeps : course.Keeps more later) (inside : ∀ n, operand = .temp n → n ∈ region)
    (apart : region.Disjoint more) : later.eval operand = course.eval operand := by
  cases operand with
  | temp n => exact keeps n (apart (inside n rfl))
  | named | symbol | bool | int => rfl

theorem keeps_after {region : List Nat} {move : Move} (keeps : ∀ n ∉ region, move.Keeps n) :
    course.Keeps region (course.after move) := by
  intro n other
  cases move with
  | jump | branch | ret => rfl
  | instr p i =>
      simp only [after, put]
      split
      · next m dest =>
          have ne : n ≠ m := by
            rintro rfl
            exact keeps n other dest
          exact Function.update_of_ne ne ..
      · rfl

theorem keeps_behind {region : List Nat} {acts : List Act}
    (keeps : ∀ move ∈ Act.moves acts, ∀ n ∉ region, move.Keeps n) :
    course.Keeps region (course.behind acts) := by
  unfold behind
  generalize Act.moves acts = moves at keeps
  induction moves generalizing course with
  | nil => exact .refl region
  | cons move moves ih =>
      obtain ⟨here, others⟩ := List.forall_mem_cons.mp keeps
      exact (keeps_after here).trans (ih others)

end Ir.Course

/-- Carrying out code defines no other numbers than the code does. -/
theorem Exec.move_keeps {p : Spot} {code : Code} {acts : List Act} {stop : Option Spot}
    (exec : Exec p code acts stop) : ∀ move ∈ Act.moves acts, ∀ n ∉ code.temps, move.Keeps n := by
  intro move mem n new
  obtain ⟨act, there, eq⟩ := List.mem_filterMap.mp mem
  have part := exec.acts_from act there
  cases act with
  | read => cases eq
  | move role =>
      cases eq
      cases move with
      | jump | branch | ret => trivial
      | instr q i =>
          intro dest
          apply new
          rw [code.temps_eq]
          exact List.mem_filterMap.mpr
            ⟨_, part, by simp [Part.number?, Instr.number?, dest, Operand.temp?]⟩

theorem Exec.keeps {p : Spot} {code : Code} {acts : List Act} {stop : Option Spot}
    (exec : Exec p code acts stop) (course : Course) : course.Keeps code.temps (course.behind acts) :=
  Course.keeps_behind exec.move_keeps

/-- An operand is copied to a new slot. -/
def Act.Copy (operand : Operand) (n : Nat) (acts : List Act) : Prop :=
  ∃ before p type q after, acts = before ++ .move .plain (.instr p (.alloca (.temp n) type)) ::
    .move .plain (.instr q (.store ⟨type, operand⟩ (.temp n))) :: after

theorem Act.Copy.append {operand : Operand} {n : Nat} {acts : List Act} (copy : Copy operand n acts)
    (more : List Act) : Copy operand n (acts ++ more) := by
  obtain ⟨before, p, type, q, after, rfl⟩ := copy
  exact ⟨before, p, type, q, after ++ more, by simp⟩

theorem Act.Copy.prepend {operand : Operand} {n : Nat} {acts : List Act} (copy : Copy operand n acts)
    (first : List Act) : Copy operand n (first ++ acts) := by
  obtain ⟨before, p, type, q, after, rfl⟩ := copy
  exact ⟨first ++ before, p, type, q, after, by simp⟩

/-- A part calls nothing and looks nothing up. -/
def Part.Silent : Part → Prop
  | .instr _ i => i.callee? = none
  | .read _ _ _ => False
  | .slot _ _ | .ends _ => True

/-- Code without calls makes none. -/
theorem Exec.calls_eq_nil {p : Spot} {code : Code} {acts : List Act} {stop : Option Spot}
    (exec : Exec p code acts stop) (silent : ∀ part ∈ code.parts, part.Silent) (course : Course) :
    course.calls acts = [] := by
  have silent : ∀ move ∈ Act.moves acts, move.call? = none := by
    intro move mem
    obtain ⟨act, there, eq⟩ := List.mem_filterMap.mp mem
    have part := exec.acts_from act there
    cases act with
    | read => cases eq
    | move role =>
        cases eq
        cases move with
        | jump | branch | ret => rfl
        | instr q i =>
            have silent := silent _ part
            cases i with
            | call => cases silent
            | alloca | load | store | elementPtr | select | phi => rfl
  unfold Course.calls
  generalize Act.moves acts = moves at silent
  induction moves generalizing course with
  | nil => rfl
  | cons move moves ih =>
      obtain ⟨here, others⟩ := List.forall_mem_cons.mp silent
      rw [Course.resolved, List.filterMap_cons_none, ih _ others]
      cases move with
      | jump | branch | ret => rfl
      | instr q i =>
          cases i with
          | call => cases here
          | alloca | load | store | elementPtr | select | phi => rfl

namespace Code

/-- Something holds of each way through code that goes on behind it, if branches go where their
    flags say. -/
def Ways (code : Code) (course : Course) (post : List Act → Prop) : Prop :=
  ∀ p acts q, Exec p code acts (some q) → course.Allows acts → post acts

variable {course : Course} {post post' : List Act → Prop} {first second code : Code}

theorem Ways.mono (h : code.Ways course post) (le : ∀ acts, post acts → post' acts) :
    code.Ways course post' :=
  fun p acts q exec allows => le acts (h p acts q exec allows)

/-- What is known of all ways can be used. -/
theorem Ways.along (h : code.Ways course post)
    (le : ∀ p acts q, Exec p code acts (some q) → post acts → post' acts) : code.Ways course post' :=
  fun p acts q exec allows => le p acts q exec (h p acts q exec allows)

theorem ways_of_exec (h : ∀ p acts q, Exec p code acts (some q) → post acts) : code.Ways course post :=
  fun p acts q exec _ => h p acts q exec

theorem ways_skip (h : post []) : skip.Ways course post := by
  intro p acts q exec _
  cases exec
  exact h

theorem ways_instr {role : Role} {i : Instr} (h : ∀ p, post [.move role (.instr p i)]) :
    (instr role i).Ways course post := by
  intro p acts q exec _
  cases exec
  exact h p

theorem ways_jump {source target : BlockId}
    (h : ∀ p, p.block = source → post [.move .plain (.jump p target)]) :
    (jump source target).Ways course post := by
  intro p acts q exec _
  cases exec
  exact h p rfl

theorem ways_seq
    (h : first.Ways course fun acts =>
      second.Ways (course.behind acts) fun more => post (acts ++ more)) :
    (seq first second).Ways course post := by
  intro p acts q exec allows
  cases exec with
  | seq exec₁ exec₂ =>
      obtain ⟨allows₁, allows₂⟩ := Course.allows_append.mp allows
      exact h _ _ _ exec₁ allows₁ _ _ _ exec₂ allows₂

theorem ways_assoc {third : Code} :
    (seq (seq first second) third).Ways course post ↔
      (seq first (seq second third)).Ways course post := by
  constructor
  · intro h p acts q exec
    cases exec with
    | seq exec₁ exec =>
        cases exec with
        | seq exec₂ exec₃ =>
            rw [← List.append_assoc]
            exact h _ _ _ (.seq (.seq exec₁ exec₂) exec₃)
  · intro h p acts q exec
    cases exec with
    | seq exec exec₃ =>
        cases exec with
        | seq exec₁ exec₂ =>
            rw [List.append_assoc]
            exact h _ _ _ (.seq exec₁ (.seq exec₂ exec₃))

/-- An operand is copied to a new slot, which stands for itself. -/
theorem ways_copy {n : Nat} {type : IrType} {operand : Operand}
    (h : ∀ acts, Act.Copy operand n acts →
      (course.behind acts).value = Function.update course.value n (.temp n) → post acts) :
    (seq (instr .plain (.alloca (.temp n) type))
      (instr .plain (.store ⟨type, operand⟩ (.temp n)))).Ways course post := by
  apply ways_seq
  apply ways_instr
  intro p
  apply ways_instr
  intro q
  apply h
  · exact ⟨[], p, type, q, [], rfl⟩
  · simp [Course.after, Course.put, Instr.dest, Course.merged?, Instr.incoming?]

/-- A merge of what two blocks have gives what the block has that control came from. -/
theorem ways_merge {n : Nat} {type : IrType} {first second : Operand × BlockId} {operand : Operand}
    {block : BlockId} (mem : (operand, block) = first ∨ (operand, block) = second)
    (ne : first.2 ≠ second.2) (source : course.source = some block)
    (h : ∀ acts, course.behind acts =
      { course with value := Function.update course.value n (operand.under course.entering) } →
      post acts) :
    (instr .plain (.phi (.temp n) type [first, second])).Ways course post := by
  apply ways_instr
  intro p
  apply h
  have found : [first, second].find? (fun pair => course.source = some pair.2) =
      some (operand, block) := by
    rcases mem with rfl | rfl
    · simp [source]
    · simp [source, ne.symm]
  have merged : course.merged? (.phi (.temp n) type [first, second]) =
      some (operand.under course.entering) := by
    simp [Course.merged?, Instr.incoming?, found]
  simp [Course.after, Course.put, Instr.dest, merged]

/-- A branch whose flag stands for a constant is taken as this says. -/
theorem ways_fork {role : Role} {flag : Operand} {onTrue onFalse : BlockId}
    (atTrue : course.eval flag ≠ .bool false → ∀ p,
      first.Ways (course.leave p.block) fun acts =>
        post (.move role (.branch p flag true onTrue) :: acts))
    (atFalse : course.eval flag ≠ .bool true → ∀ p,
      second.Ways (course.leave p.block) fun acts =>
        post (.move role (.branch p flag false onFalse) :: acts)) :
    (fork role flag onTrue onFalse first second).Ways course post := by
  intro p acts q exec allows
  have taken : ∀ {taken value target rest}, acts = .move role (.branch p flag taken target) :: rest →
      course.eval flag = .bool value → taken = value := by
    rintro taken value target rest rfl eq
    apply allows p value taken target
    rw [← eq]
    exact List.mem_cons_self
  have onward : ∀ {act rest}, course.Allows (act :: rest) → (course.behind [act]).Allows rest :=
    fun {act _} allows => (@Course.allows_append course [act] _).mp allows |>.2
  cases exec with
  | @forkTrue _ _ rest _ _ _ _ _ _ exec =>
      have other : course.eval flag ≠ .bool false := fun eq => by cases taken rfl eq
      exact atTrue other p _ rest q exec (onward allows)
  | @forkFalse _ _ rest _ _ _ _ _ _ exec =>
      have other : course.eval flag ≠ .bool true := fun eq => by cases taken rfl eq
      exact atFalse other p _ rest q exec (onward allows)

/-- Two sides that meet, whatever the flag is. -/
theorem ways_meet {third : Code} {taken : Bool} {flag : Operand} {a b : BlockId}
    (atFirst : ∀ p, (seq first third).Ways (course.behind [.move .plain (.branch p flag taken a)])
      fun acts => post (.move .plain (.branch p flag taken a) :: acts))
    (atSecond : ∀ p, (seq second third).Ways (course.behind [.move .plain (.branch p flag (!taken) b)])
      fun acts => post (.move .plain (.branch p flag (!taken) b) :: acts)) :
    (seq (sides taken flag a b first second) third).Ways course post := by
  intro p acts q exec allows
  cases exec with
  | seq exec rest =>
      have onward : ∀ {act acts more}, course.Allows ((act :: acts) ++ more) →
          (course.behind [act]).Allows (acts ++ more) :=
        fun {act _ _} allows => (@Course.allows_append course [act] _).mp allows |>.2
      cases taken with
      | true =>
          cases exec with
          | forkTrue exec => exact atFirst p _ _ _ (.seq exec rest) (onward allows)
          | forkFalse exec => exact atSecond p _ _ _ (.seq exec rest) (onward allows)
      | false =>
          cases exec with
          | forkTrue exec => exact atSecond p _ _ _ (.seq exec rest) (onward allows)
          | forkFalse exec => exact atFirst p _ _ _ (.seq exec rest) (onward allows)

end Code

end LlvmBackend
