import LlvmBackend.Proofs.Code.Parts
import LlvmBackend.Proofs.Ir.Ssa

/-! # Code that reads what is there

A piece of code is supplied by some registers if it reads these and those that it defined before.
Main statement: carrying such code out never reads a register that was not defined on the way
(`Supplied.sound`).
-/

namespace LlvmBackend

open Ir

/-- An operand is there if the registers are that are known: a constant always is. -/
def Operand.Known (known : List Operand) (operand : Operand) : Prop :=
  operand.isRegister → operand ∈ known

theorem Operand.Known.mono {known more : List Operand} {operand : Operand}
    (h : operand.Known known) (sub : known ⊆ more) : operand.Known more :=
  fun isRegister => sub (h isRegister)

/-- What a part of code reads. -/
def Part.reads : Part → List Operand
  | .instr _ i => i.reads
  | .ends terminator => terminator.reads
  | .read _ _ _ | .slot _ _ => []

/-- Merges of what is known at the ends of two blocks, and what they define. -/
inductive MergesKnown (first second : BlockId) (atFirst atSecond : List Operand) :
    Code → List Operand → Prop where
  | skip : MergesKnown first second atFirst atSecond .skip []
  | instr :
      i.incoming? = some incoming →
      (∀ pair ∈ incoming, pair.2 = first ∧ pair.1.Known atFirst ∨
        pair.2 = second ∧ pair.1.Known atSecond) →
      MergesKnown first second atFirst atSecond (.instr role i) i.dest.toList
  | seq :
      MergesKnown first second atFirst atSecond code made →
      MergesKnown first second atFirst atSecond code' made' →
      MergesKnown first second atFirst atSecond (.seq code code') (made' ++ made)

theorem MergesKnown.symm {first second : BlockId} {atFirst atSecond made : List Operand}
    {code : Code} (h : MergesKnown first second atFirst atSecond code made) :
    MergesKnown second first atSecond atFirst code made := by
  induction h with
  | skip => exact .skip
  | instr eq pairs => exact .instr eq fun pair mem => (pairs pair mem).symm
  | seq _ _ ih₁ ih₂ => exact .seq ih₁ ih₂

/-- Code reads what is known before it, and some of what is known then is known behind it. -/
inductive Supplied : List Operand → Code → List Operand → Prop where
  | skip : after ⊆ known → Supplied known .skip after
  | seq :
      Supplied known first middle →
      Supplied middle second after →
      Supplied known (.seq first second) after
  | instr :
      i.incoming? = none →
      (∀ operand ∈ i.reads, operand.Known known) →
      after ⊆ i.dest.toList ++ known →
      Supplied known (.instr role i) after
  | read : after ⊆ known → Supplied known (.read name rebound value) after
  | slot : after ⊆ known → Supplied known (.slot name type) after
  | jump : after ⊆ known → Supplied known (.jump source target) after
  | fork :
      flag.Known known →
      Supplied known whenTrue atTrue →
      Supplied known whenFalse atFalse →
      after ⊆ known →
      Supplied known (.fork role flag onTrue onFalse whenTrue whenFalse) after
  | join :
      flag.Known known →
      Supplied known first atFirst →
      Supplied known second atSecond →
      end₁ ≠ end₂ →
      MergesKnown end₁ end₂ atFirst atSecond merges made →
      after ⊆ made ++ known →
      Supplied known
        (.seq (.sides taken flag a b (.seq first (.jump end₁ fin)) (.seq second (.jump end₂ fin)))
          merges) after
  | loop :
      Supplied known test middle →
      flag.Known middle →
      Supplied middle turn last →
      after ⊆ known →
      Supplied known (.loop body fin test flag turn) after
  | ret :
      (∀ operand ∈ (Terminator.ret value).reads, operand.Known known) →
      after ⊆ known →
      Supplied known (.ret value) after

namespace Supplied

variable {known after : List Operand} {code : Code}

/-- Some of what is known may be forgotten. -/
theorem forget {less : List Operand} (h : Supplied known code after) (sub : less ⊆ after) :
    Supplied known code less := by
  induction h generalizing less with
  | skip le => exact .skip (List.Subset.trans sub le)
  | seq h₁ _ _ ih₂ => exact .seq h₁ (ih₂ sub)
  | instr plain reads le => exact .instr plain reads (List.Subset.trans sub le)
  | read le => exact .read (List.Subset.trans sub le)
  | slot le => exact .slot (List.Subset.trans sub le)
  | jump le => exact .jump (List.Subset.trans sub le)
  | fork flag h₁ h₂ le => exact .fork flag h₁ h₂ (List.Subset.trans sub le)
  | join flag h₁ h₂ ne merges le => exact .join flag h₁ h₂ ne merges (List.Subset.trans sub le)
  | loop h₁ flag h₂ le => exact .loop h₁ flag h₂ (List.Subset.trans sub le)
  | ret reads le => exact .ret reads (List.Subset.trans sub le)

/-- What is known besides does not matter. -/
theorem mono {more : List Operand} (h : Supplied known code after) (sub : known ⊆ more) :
    Supplied more code after := by
  induction h generalizing more with
  | skip le => exact .skip (List.Subset.trans le sub)
  | seq _ h₂ ih₁ _ => exact .seq (ih₁ sub) h₂
  | instr plain reads le =>
      exact .instr plain (fun operand mem => (reads operand mem).mono sub)
        (List.Subset.trans le (List.append_subset.mpr ⟨List.subset_append_left _ _,
          List.subset_append_of_subset_right _ sub⟩))
  | read le => exact .read (List.Subset.trans le sub)
  | slot le => exact .slot (List.Subset.trans le sub)
  | jump le => exact .jump (List.Subset.trans le sub)
  | fork flag _ _ le ih₁ ih₂ =>
      exact .fork (flag.mono sub) (ih₁ sub) (ih₂ sub) (List.Subset.trans le sub)
  | join flag _ _ ne merges le ih₁ ih₂ =>
      exact .join (flag.mono sub) (ih₁ sub) (ih₂ sub) ne merges
        (List.Subset.trans le (List.append_subset.mpr ⟨List.subset_append_left _ _,
          List.subset_append_of_subset_right _ sub⟩))
  | loop _ flag h₂ le ih₁ _ => exact .loop (ih₁ sub) flag h₂ (List.Subset.trans le sub)
  | ret reads le =>
      exact .ret (fun operand mem => (reads operand mem).mono sub) (List.Subset.trans le sub)

/-- Code that control leaves by a jump. -/
theorem leading {ended : Bool} {source fin : BlockId} (h : Supplied known code after) :
    Supplied known (code.leading ended source fin) after := by
  cases ended with
  | true => exact h
  | false => exact .seq h (.jump (List.Subset.refl _))

end Supplied

/-! ## Where registers come from -/

namespace Code

@[simp] theorem dests_instr (role : Role) (i : Instr) : (instr role i).dests = i.dest.toList := by
  cases dest : i.dest <;> simp [dests, parts, Part.dest, dest]

@[simp] theorem dests_jump (source target : BlockId) : (jump source target).dests = [] := rfl

@[simp] theorem dests_fork (role : Role) (flag : Operand) (onTrue onFalse : BlockId)
    (whenTrue whenFalse : Code) : (fork role flag onTrue onFalse whenTrue whenFalse).dests =
      whenTrue.dests ++ whenFalse.dests := by
  simp [dests, parts, Part.dest, List.filterMap_cons]

@[simp] theorem dests_loop (body fin : BlockId) (test : Code) (flag : Operand) (turn : Code) :
    (loop body fin test flag turn).dests = test.dests ++ turn.dests := by
  simp [dests, parts, Part.dest, List.filterMap_cons]

@[simp] theorem dests_seq (first second : Code) :
    (seq first second).dests = first.dests ++ second.dests := by
  simp [dests, parts]

theorem mem_dests_sides {operand : Operand} {taken : Bool} {flag : Operand} {a b : BlockId}
    {first second : Code} : operand ∈ (sides taken flag a b first second).dests ↔
      operand ∈ first.dests ∨ operand ∈ second.dests := by
  cases taken <;> simp [sides, or_comm]

end Code

/-- All that the parts of code read is known in the end. -/
def ReadsKnown (known : List Operand) (code : Code) : Prop :=
  ∀ part ∈ code.parts, ∀ operand ∈ part.reads, operand.Known (known ++ code.dests)

theorem MergesKnown.reads {first second : BlockId} {atFirst atSecond made : List Operand}
    {code : Code} (merges : MergesKnown first second atFirst atSecond code made) :
    made ⊆ code.dests ∧ ∀ part ∈ code.parts, ∀ operand ∈ part.reads,
      operand.Known atFirst ∨ operand.Known atSecond := by
  induction merges with
  | skip => simp [Code.parts]
  | instr eq pairs =>
      refine ⟨by simp, ?_⟩
      intro part mem operand read
      cases List.mem_singleton.mp mem
      rw [Part.reads, Instr.reads_of_merge eq] at read
      obtain ⟨pair, mem, rfl⟩ := List.mem_map.mp read
      exact (pairs pair mem).imp And.right And.right
  | seq _ _ ih₁ ih₂ =>
      refine ⟨?_, fun part mem => ?_⟩
      · rw [Code.dests_seq]
        exact List.append_subset.mpr ⟨List.subset_append_of_subset_right _ ih₂.1,
          List.subset_append_of_subset_left _ ih₁.1⟩
      · exact (List.mem_append.mp mem).elim (ih₁.2 part) (ih₂.2 part)

/-- What supplied code reads is known before it or defined by one of its instructions. -/
theorem Supplied.reads {known after : List Operand} {code : Code} (h : Supplied known code after) :
    after ⊆ known ++ code.dests ∧ ReadsKnown known code := by
  induction h with
  | skip le | slot le | read le | jump le =>
      refine ⟨List.subset_append_of_subset_left _ le, ?_⟩
      simp [ReadsKnown, Code.parts, Part.reads, Terminator.reads]
  | ret reads le =>
      refine ⟨List.subset_append_of_subset_left _ le, ?_⟩
      intro part mem operand read
      cases List.mem_singleton.mp mem
      exact (reads operand read).mono (List.subset_append_left _ _)
  | instr plain reads le =>
      refine ⟨?_, fun part mem operand read => ?_⟩
      · rw [Code.dests_instr]
        exact List.Subset.trans le (List.append_subset.mpr
          ⟨List.subset_append_right _ _, List.subset_append_left _ _⟩)
      · cases List.mem_singleton.mp mem
        exact (reads operand read).mono (List.subset_append_left _ _)
  | @seq known first middle second after _ _ ih₁ ih₂ =>
      obtain ⟨le₁, reads₁⟩ := ih₁
      obtain ⟨le₂, reads₂⟩ := ih₂
      have widen₁ : known ++ first.dests ⊆ known ++ (Code.seq first second).dests := by simp
      have widen₂ : middle ++ second.dests ⊆ known ++ (Code.seq first second).dests := by
        rw [Code.dests_seq, ← List.append_assoc]
        exact List.append_subset.mpr ⟨List.subset_append_of_subset_left _ le₁, by simp⟩
      refine ⟨List.Subset.trans le₂ widen₂, fun part mem operand read => ?_⟩
      rcases List.mem_append.mp mem with mem | mem
      · exact (reads₁ part mem operand read).mono widen₁
      · exact (reads₂ part mem operand read).mono widen₂
  | fork isKnown _ _ le ih₁ ih₂ =>
      refine ⟨List.subset_append_of_subset_left _ le, fun part mem operand read => ?_⟩
      rw [Code.dests_fork]
      rcases List.mem_cons.mp mem with rfl | mem
      · cases List.mem_singleton.mp read
        exact isKnown.mono (List.subset_append_left _ _)
      rcases List.mem_append.mp mem with mem | mem
      · exact (ih₁.2 part mem operand read).mono (by simp)
      · exact (ih₂.2 part mem operand read).mono (by simp)
  | @join known first _ second _ end₁ end₂ merges made after taken flag a b fin isKnown _ _ ne
      united le ih₁ ih₂ =>
      obtain ⟨le_made, reads⟩ := united.reads
      refine ⟨?_, fun part mem operand read => ?_⟩
      · rw [Code.dests_seq]
        refine List.Subset.trans le (List.append_subset.mpr
          ⟨List.Subset.trans le_made ?_, List.subset_append_left _ _⟩)
        exact fun operand mem => List.mem_append_right _ (List.mem_append_right _ mem)
      have widen₁ : known ++ first.dests ⊆ known ++ (Code.seq (.sides taken flag a b
          (.seq first (.jump end₁ fin)) (.seq second (.jump end₂ fin))) merges).dests := by
        intro operand mem
        simp only [Code.dests_seq, Code.mem_dests_sides, List.mem_append] at mem ⊢
        tauto
      have widen₂ : known ++ second.dests ⊆ known ++ (Code.seq (.sides taken flag a b
          (.seq first (.jump end₁ fin)) (.seq second (.jump end₂ fin))) merges).dests := by
        intro operand mem
        simp only [Code.dests_seq, Code.mem_dests_sides, List.mem_append] at mem ⊢
        tauto
      simp only [Code.parts, List.mem_append, Code.mem_parts_sides, List.mem_singleton] at mem
      rcases mem with (rfl | (mem | rfl) | mem | rfl) | mem
      · have : operand = flag := by
          cases taken <;> simpa [Part.reads, Terminator.sides, Terminator.reads] using read
        rw [this]
        exact isKnown.mono (List.subset_append_left _ _)
      · exact (ih₁.2 part mem operand read).mono widen₁
      · cases read
      · exact (ih₂.2 part mem operand read).mono widen₂
      · cases read
      · rcases reads part mem operand read with h | h
        · exact (h.mono ih₁.1).mono widen₁
        · exact (h.mono ih₂.1).mono widen₂
  | @loop known test middle turn _ after body fin flag _ isKnown _ le ih₁ ih₂ =>
      obtain ⟨le₁, reads₁⟩ := ih₁
      have widen₁ : known ++ test.dests ⊆ known ++ (Code.loop body fin test flag turn).dests := by
        simp
      have widen₂ : middle ++ turn.dests ⊆
          known ++ (Code.loop body fin test flag turn).dests := by
        rw [Code.dests_loop, ← List.append_assoc]
        exact List.append_subset.mpr ⟨List.subset_append_of_subset_left _ le₁, by simp⟩
      refine ⟨List.subset_append_of_subset_left _ le, fun part mem operand read => ?_⟩
      rcases List.mem_append.mp mem with mem | mem
      · exact (reads₁ part mem operand read).mono widen₁
      rcases List.mem_cons.mp mem with rfl | mem
      · cases List.mem_singleton.mp read
        exact (isKnown.mono le₁).mono widen₁
      · exact (ih₂.2 part mem operand read).mono widen₂

/-! ## Walks that read what is there -/

/-- What is known where control stands. -/
structure Trail where
  known : List Operand
  /-- What was known when control entered the block. -/
  entering : List Operand
  /-- The block that control came from. -/
  source : Option BlockId

namespace Trail

variable (trail : Trail)

/-- What is known behind a move. -/
def after : Move → Trail
  | .instr _ i => { trail with known := i.dest.toList ++ trail.known }
  | .jump p _ | .branch p _ _ _ => ⟨trail.known, trail.known, some p.block⟩
  | .ret _ _ => trail

/-- What is known behind moves. -/
def afterAll (moves : List Move) : Trail := moves.foldl after trail

/-- A move reads what is known. A merge reads what was known when control left the block that it
    came from. -/
def Allows : Move → Prop
  | .instr _ i =>
    match i.incoming? with
    | none => ∀ operand ∈ i.reads, operand.Known trail.known
    | some incoming => ∀ pair ∈ incoming, trail.source = some pair.2 → pair.1.Known trail.entering
  | .jump _ _ => True
  | .branch _ flag _ _ => flag.Known trail.known
  | .ret _ value => ∀ operand ∈ (Terminator.ret value).reads, operand.Known trail.known

/-- Moves read what is known. -/
def Sound : Trail → List Move → Prop
  | _, [] => True
  | trail, move :: moves => trail.Allows move ∧ (trail.after move).Sound moves

theorem afterAll_append (first second : List Move) :
    trail.afterAll (first ++ second) = (trail.afterAll first).afterAll second := by
  simp [afterAll]

theorem afterAll_cons (move : Move) (moves : List Move) :
    trail.afterAll (move :: moves) = (trail.after move).afterAll moves := rfl

theorem sound_append {first second : List Move} :
    trail.Sound (first ++ second) ↔ trail.Sound first ∧ (trail.afterAll first).Sound second := by
  induction first generalizing trail with
  | nil => simp [Sound, afterAll]
  | cons move first ih => rw [List.cons_append, Sound, Sound, ih, and_assoc, afterAll_cons]

theorem known_after (move : Move) : trail.known ⊆ (trail.after move).known := by
  cases move <;> simp [after]

theorem known_afterAll (moves : List Move) : trail.known ⊆ (trail.afterAll moves).known := by
  induction moves generalizing trail with
  | nil => exact List.Subset.refl _
  | cons move moves ih => exact List.Subset.trans (trail.known_after move) (ih _)

/-- What is known was known before or defined on the way. -/
theorem mem_known_afterAll {moves : List Move} {operand : Operand}
    (mem : operand ∈ (trail.afterAll moves).known) :
    operand ∈ trail.known ∨ ∃ p i, .instr p i ∈ moves ∧ i.dest = some operand := by
  induction moves generalizing trail with
  | nil => exact .inl mem
  | cons move moves ih =>
      rcases ih _ mem with here | ⟨p, i, mem, dest⟩
      · cases move with
        | instr p i =>
            rcases List.mem_append.mp here with defined | old
            · exact .inr ⟨p, i, List.mem_cons_self, Option.mem_toList.mp defined⟩
            · exact .inl old
        | jump | branch | ret => exact .inl here
      · exact .inr ⟨p, i, List.mem_cons_of_mem _ mem, dest⟩

/-- Within a block it stays the same where control came from. -/
theorem afterAll_instrs {moves : List Move} (instrs : ∀ move ∈ moves, ∃ p i, move = .instr p i) :
    (trail.afterAll moves).source = trail.source ∧
      (trail.afterAll moves).entering = trail.entering := by
  induction moves generalizing trail with
  | nil => exact ⟨rfl, rfl⟩
  | cons move moves ih =>
      obtain ⟨⟨p, i, rfl⟩, others⟩ := List.forall_mem_cons.mp instrs
      exact ih _ others

/-- Control can go from the end of a block to each of its successors. -/
theorem exists_step {table : Table} {p : Spot} {terminator : Terminator} {target : BlockId}
    (ends : table.Ends p terminator) (mem : target ∈ terminator.successors) :
    ∃ move, Step table p move (some (.start target)) ∧
      trail.after move = ⟨trail.known, trail.known, some p.block⟩ := by
  cases terminator with
  | br other =>
      cases List.mem_singleton.mp mem
      exact ⟨_, .jump ends, rfl⟩
  | condBr flag onTrue onFalse =>
      have : target = onTrue ∨ target = onFalse := by simpa [Terminator.successors] using mem
      rcases this with rfl | rfl
      · exact ⟨_, .onTrue ends, rfl⟩
      · exact ⟨_, .onFalse ends, rfl⟩
  | ret value => cases mem

end Trail

/-- Carrying out code that is supplied reads what is known, and so is what it leaves behind. -/
def Carries (known : List Operand) (code : Code) (after : List Operand) : Prop :=
  ∀ p acts stop, Exec p code acts stop → ∀ trail : Trail, known ⊆ trail.known →
    trail.Sound (Act.moves acts) ∧
      (stop.isSome → after ⊆ (trail.afterAll (Act.moves acts)).known)

namespace Carries

variable {known after : List Operand}

theorem seq {middle : List Operand} {first second : Code} (h₁ : Carries known first middle)
    (h₂ : Carries middle second after) : Carries known (.seq first second) after := by
  intro p acts stop exec trail le
  cases exec with
  | seq exec₁ exec₂ =>
      obtain ⟨sound₁, knows₁⟩ := h₁ _ _ _ exec₁ trail le
      obtain ⟨sound₂, knows₂⟩ := h₂ _ _ _ exec₂ _ (knows₁ rfl)
      rw [Act.moves_append, Trail.sound_append, Trail.afterAll_append]
      exact ⟨⟨sound₁, sound₂⟩, knows₂⟩
  | seqReturns exec₁ => exact ⟨(h₁ _ _ _ exec₁ trail le).1, by simp⟩

theorem loop {middle last : List Operand} {test turn : Code} {flag : Operand} {body fin : BlockId}
    (h₁ : Carries known test middle) (isKnown : flag.Known middle)
    (h₂ : Carries middle turn last) : Carries known (.loop body fin test flag turn) known := by
  intro p acts stop exec
  generalize eq : Code.loop body fin test flag turn = code at exec
  -- The induction is on the turns that are carried out.
  induction exec with
  | loopEnds exec₁ _ =>
      cases eq
      intro trail le
      obtain ⟨sound₁, knows₁⟩ := h₁ _ _ _ exec₁ trail le
      rw [Act.moves_append, Trail.sound_append, Trail.afterAll_append]
      exact ⟨⟨sound₁, isKnown.mono (knows₁ rfl), trivial⟩,
        fun _ => List.Subset.trans le
          (List.Subset.trans (Trail.known_afterAll _ _) (Trail.known_afterAll _ _))⟩
  | loopTurns exec₁ exec₂ _ _ _ ih =>
      cases eq
      intro trail le
      obtain ⟨sound₁, knows₁⟩ := h₁ _ _ _ exec₁ trail le
      obtain ⟨sound₂, _⟩ := h₂ _ _ _ exec₂ ((trail.afterAll _).after _)
        (List.Subset.trans (knows₁ rfl) (Trail.known_after _ _))
      obtain ⟨sound₃, knows₃⟩ := ih rfl (((trail.afterAll _).after _).afterAll _)
        (List.Subset.trans le (List.Subset.trans (Trail.known_afterAll _ _)
          (List.Subset.trans (Trail.known_after _ _) (Trail.known_afterAll _ _))))
      rw [Act.moves_append, Act.moves_move, Act.moves_append, Trail.sound_append, Trail.Sound,
        Trail.sound_append, Trail.afterAll_append, Trail.afterAll_cons, Trail.afterAll_append]
      exact ⟨⟨sound₁, isKnown.mono (knows₁ rfl), sound₂, sound₃⟩, knows₃⟩
  | turnReturns exec₁ exec₂ _ _ =>
      cases eq
      intro trail le
      obtain ⟨sound₁, knows₁⟩ := h₁ _ _ _ exec₁ trail le
      obtain ⟨sound₂, _⟩ := h₂ _ _ _ exec₂ ((trail.afterAll _).after _)
        (List.Subset.trans (knows₁ rfl) (Trail.known_after _ _))
      rw [Act.moves_append, Act.moves_move, Trail.sound_append, Trail.Sound]
      exact ⟨⟨sound₁, isKnown.mono (knows₁ rfl), sound₂⟩, by simp⟩
  | testReturns exec₁ _ =>
      cases eq
      intro trail le
      exact ⟨(h₁ _ _ _ exec₁ trail le).1, by simp⟩
  | _ => cases eq

/-- Behind the end of one of two blocks, merges read what was known there. -/
theorem merges {first second : BlockId} {atFirst atSecond made : List Operand} {code : Code}
    (h : MergesKnown first second atFirst atSecond code made) {p : Spot} {acts : List Act}
    {stop : Option Spot} (exec : Exec p code acts stop) (trail : Trail)
    (arrived : ∀ (operand : Operand) (block : BlockId), trail.source = some block →
      block = first ∧ operand.Known atFirst ∨ block = second ∧ operand.Known atSecond →
      operand.Known trail.entering) :
    stop.isSome ∧ trail.Sound (Act.moves acts) ∧ made ⊆ (trail.afterAll (Act.moves acts)).known ∧
      (trail.afterAll (Act.moves acts)).source = trail.source ∧
      (trail.afterAll (Act.moves acts)).entering = trail.entering := by
  induction h generalizing p acts stop trail with
  | skip =>
      cases exec
      exact ⟨rfl, trivial, List.nil_subset _, rfl, rfl⟩
  | instr eq pairs =>
      cases exec
      refine ⟨rfl, ⟨?_, trivial⟩, List.subset_append_left _ _, rfl, rfl⟩
      rw [Trail.Allows, eq]
      exact fun pair mem source => arrived pair.1 pair.2 source (pairs pair mem)
  | seq _ _ ih₁ ih₂ =>
      cases exec with
      | seq exec₁ exec₂ =>
          obtain ⟨_, sound₁, knows₁, source₁, entering₁⟩ := ih₁ exec₁ trail arrived
          obtain ⟨isSome, sound₂, knows₂, source₂, entering₂⟩ := ih₂ exec₂ (trail.afterAll _) (by
            rw [source₁, entering₁]
            exact arrived)
          rw [Act.moves_append, Trail.sound_append, Trail.afterAll_append]
          refine ⟨isSome, ⟨sound₁, sound₂⟩, List.append_subset.mpr ⟨knows₂, ?_⟩, source₂.trans source₁,
            entering₂.trans entering₁⟩
          exact List.Subset.trans knows₁ (Trail.known_afterAll _ _)
      | seqReturns exec₁ => exact absurd (ih₁ exec₁ trail arrived).1 (by simp)

/-- At the end of a side of a branch control leaves to where the sides meet. -/
theorem way {known atEnd : List Operand} {code : Code} (h : Carries known code atEnd)
    {p q : Spot} {source fin : BlockId} {acts : List Act}
    (exec : Exec p (.seq code (.jump source fin)) acts (some q)) (trail : Trail)
    (le : known ⊆ trail.known) :
    trail.Sound (Act.moves acts) ∧ atEnd ⊆ (trail.afterAll (Act.moves acts)).entering ∧
      (trail.afterAll (Act.moves acts)).source = some source := by
  rcases exec.seq_jump with ⟨_, stops⟩ | ⟨rest, last, carried, block, rfl, _⟩
  · cases stops
  obtain ⟨sound, knows⟩ := h _ _ _ carried trail le
  rw [Act.moves_append, Trail.sound_append, Trail.afterAll_append]
  exact ⟨⟨sound, trivial, trivial⟩, knows rfl, congrArg some block⟩

/-- What is known before code and not forgotten on one way through it. -/
theorem returned {known atEnd : List Operand} {code : Code} (h : Carries known code atEnd)
    {p : Spot} {source fin : BlockId} {acts : List Act}
    (exec : Exec p (.seq code (.jump source fin)) acts none) (trail : Trail)
    (le : known ⊆ trail.known) : trail.Sound (Act.moves acts) := by
  rcases exec.seq_jump with ⟨exec, _⟩ | ⟨_, _, _, _, _, stops⟩
  · exact (h _ _ _ exec trail le).1
  · cases stops

theorem join {known atFirst atSecond made : List Operand} {taken : Bool} {flag : Operand}
    {a b end₁ end₂ fin : BlockId} {first second merges : Code} (isKnown : flag.Known known)
    (h₁ : Carries known first atFirst) (h₂ : Carries known second atSecond) (ne : end₁ ≠ end₂)
    (united : MergesKnown end₁ end₂ atFirst atSecond merges made) :
    Carries known
      (.seq (.sides taken flag a b (.seq first (.jump end₁ fin)) (.seq second (.jump end₂ fin)))
        merges) (made ++ known) := by
  intro p acts stop exec trail le
  cases exec with
  | seq execSides execMerges =>
      rw [Act.moves_append, Trail.sound_append, Trail.afterAll_append]
      rcases Exec.sides_iff.mp execSides with ⟨rest, rfl, side⟩ | ⟨rest, rfl, side⟩
      · obtain ⟨sound, entered, source⟩ := h₁.way side (trail.after (.branch p flag taken a)) le
        obtain ⟨_, united, made, _⟩ := Carries.merges united execMerges
            ((trail.after (.branch p flag taken a)).afterAll (Act.moves rest)) (by
          intro operand block from' here
          rw [source, Option.some.injEq] at from'
          rcases here with ⟨_, isKnown⟩ | ⟨there, _⟩
          · exact isKnown.mono entered
          · exact absurd (from'.trans there) ne)
        refine ⟨⟨⟨isKnown.mono le, sound⟩, united⟩, fun _ => List.append_subset.mpr ⟨made, ?_⟩⟩
        exact List.Subset.trans le
          (List.Subset.trans (Trail.known_afterAll _ _) (Trail.known_afterAll _ _))
      · obtain ⟨sound, entered, source⟩ := h₂.way side (trail.after (.branch p flag (!taken) b)) le
        obtain ⟨_, united, made, _⟩ := Carries.merges united execMerges
            ((trail.after (.branch p flag (!taken) b)).afterAll (Act.moves rest)) (by
          intro operand block from' here
          rw [source, Option.some.injEq] at from'
          rcases here with ⟨there, _⟩ | ⟨_, isKnown⟩
          · exact absurd (from'.trans there).symm ne
          · exact isKnown.mono entered)
        refine ⟨⟨⟨isKnown.mono le, sound⟩, united⟩, fun _ => List.append_subset.mpr ⟨made, ?_⟩⟩
        exact List.Subset.trans le
          (List.Subset.trans (Trail.known_afterAll _ _) (Trail.known_afterAll _ _))
  | seqReturns execSides =>
      refine ⟨?_, by simp⟩
      rcases Exec.sides_iff.mp execSides with ⟨rest, rfl, side⟩ | ⟨rest, rfl, side⟩
      · exact ⟨isKnown.mono le, h₁.returned side (trail.after _) le⟩
      · exact ⟨isKnown.mono le, h₂.returned side (trail.after _) le⟩

end Carries

/-- Carrying out supplied code reads what was defined on the way or known before. -/
theorem Supplied.sound {known after : List Operand} {code : Code}
    (h : Supplied known code after) : Carries known code after := by
  induction h with
  | skip le | slot le | read le | jump le =>
      intro p acts stop exec trail known
      cases exec
      exact ⟨by simp [Trail.Sound, Trail.Allows], fun _ => List.Subset.trans le known⟩
  | ret reads le =>
      intro p acts stop exec trail known
      cases exec
      exact ⟨⟨fun operand mem => (reads operand mem).mono known, trivial⟩, by simp⟩
  | instr plain reads le =>
      intro p acts stop exec trail known
      cases exec
      refine ⟨⟨?_, trivial⟩, fun _ => List.Subset.trans le ?_⟩
      · rw [Trail.Allows, plain]
        exact fun operand mem => (reads operand mem).mono known
      · exact List.append_subset.mpr ⟨List.subset_append_left _ _,
          List.subset_append_of_subset_right _ known⟩
  | seq _ _ ih₁ ih₂ => exact ih₁.seq ih₂
  | fork isKnown _ _ le ih₁ ih₂ =>
      intro p acts stop exec trail known
      cases exec with
      | forkTrue exec =>
          obtain ⟨sound, _⟩ := ih₁ _ _ _ exec (trail.after _)
            (List.Subset.trans known (Trail.known_after _ _))
          exact ⟨⟨isKnown.mono known, sound⟩, fun _ =>
            List.Subset.trans le (List.Subset.trans known (Trail.known_afterAll _ _))⟩
      | forkFalse exec =>
          obtain ⟨sound, _⟩ := ih₂ _ _ _ exec (trail.after _)
            (List.Subset.trans known (Trail.known_after _ _))
          exact ⟨⟨isKnown.mono known, sound⟩, fun _ =>
            List.Subset.trans le (List.Subset.trans known (Trail.known_afterAll _ _))⟩
  | join isKnown _ _ ne united le ih₁ ih₂ => 
      intro p acts stop exec trail known
      obtain ⟨sound, knows⟩ := Carries.join isKnown ih₁ ih₂ ne united p acts stop exec trail known
      exact ⟨sound, fun isSome => List.Subset.trans le (knows isSome)⟩
  | loop _ isKnown _ le ih₁ ih₂ =>
      intro p acts stop exec trail known
      obtain ⟨sound, knows⟩ := Carries.loop ih₁ isKnown ih₂ p acts stop exec trail known
      exact ⟨sound, fun isSome => List.Subset.trans le (knows isSome)⟩

end LlvmBackend
