import LlvmBackend.Proofs.Ir.Course
import Mathlib.Data.List.Induction

/-! # A ledger of slots

What became of the slots on the stack, kept move by move. Main statement: moves that the ledger
allows tear slots down soundly (`Ledger.Allows.safe`).
-/

namespace LlvmBackend.Ir

/-- What became of a slot since it was allocated. -/
inductive Phase where
  /-- It holds no result of a call yet. -/
  | idle
  /-- It holds the result of a call. -/
  | given
  /-- It was torn down, or what it holds was moved out. -/
  | spent
  deriving DecidableEq

/-- What is known of slots where control stands. -/
structure Ledger where
  phase : Nat → Phase
  /-- What a slot has room for. -/
  room : Nat → Option IrType
  /-- How often a register was defined. -/
  turns : Nat → Nat
  /-- The slot that a register was loaded from, and how often that had been defined then. -/
  origin : Nat → Option (Nat × Nat)
  /-- The slot that was allocated by the last move. -/
  fresh : Option Nat

namespace Ledger

variable (ledger : Ledger)

/-- Before a walk. -/
def start : Ledger := ⟨fun _ => .idle, fun _ => none, fun _ => 0, fun _ => none, none⟩

/-- The slot that an operand was loaded from, and how often that had been defined then. -/
def origin? : Operand → Option (Nat × Nat)
  | .temp n => ledger.origin n
  | _ => none

/-- The slot that an operand is, and how often it was defined. -/
def slot? (operand : Operand) : Option (Nat × Nat) :=
  operand.temp?.map fun n => (n, ledger.turns n)

/-- Another move than one to a slot. -/
def settle : Ledger := { ledger with fresh := none }

/-- A register is defined. -/
def define (n : Nat) (origin : Option (Nat × Nat)) : Ledger where
  phase := Function.update ledger.phase n .idle
  room := Function.update ledger.room n none
  turns := Function.update ledger.turns n (ledger.turns n + 1)
  origin := Function.update ledger.origin n origin
  fresh := none

/-- A slot is allocated. -/
def allocate (n : Nat) (type : IrType) : Ledger :=
  { ledger.define n none with room := Function.update ledger.room n (some type), fresh := some n }

/-- A slot gets to a phase. -/
def mark (n : Nat) (phase : Phase) : Ledger :=
  { ledger with phase := Function.update ledger.phase n phase, fresh := none }

/-- Behind a call that passes a slot last. -/
def pass (released : Bool) (n : Nat) : Ledger :=
  if released then ledger.mark n .spent
  else if ledger.fresh = some n then ledger.mark n .given
  else ledger.settle

/-- Behind an instruction, by whether it is there to tear a value down. -/
def put (released : Bool) : Instr → Ledger
  | .alloca (.temp n) type => ledger.allocate n type
  | .load (.temp n) _ source => ledger.define n (ledger.slot? source)
  | .store value (.named _) =>
    match ledger.origin? value.operand with
    | some (n, _) => ledger.mark n .spent
    | none => ledger.settle
  | .call none _ _ args =>
    match args.getLast?.bind fun arg => arg.operand.temp? with
    | some n => ledger.pass released n
    | none => ledger.settle
  | i =>
    match i.dest with
    | some (.temp n) => ledger.define n none
    | _ => ledger.settle

/-- Behind a move. -/
def after (hidden : Spot → Bool) : Move → Ledger
  | .instr p i => ledger.put (hidden p) i
  | _ => ledger.settle

/-- An instruction can be carried out. -/
structure Admits (released : Bool) (i : Instr) : Prop where
  intact : ∀ n, i.Touches (.temp n) → ledger.phase n ≠ .spent
  kept : ∀ stored operand name, i = .store ⟨stored, operand⟩ (.named name) →
    ∀ n turn, ledger.origin? operand = some (n, turn) →
      ledger.phase n ≠ .spent ∧ ledger.turns n = turn
  owned : released → ∃ n callee pointer,
    i = .call none .void callee [⟨pointer, .temp n⟩] ∧ ledger.phase n = .given

/-- Each move can be carried out where control comes to it. -/
def Allows (hidden : Spot → Bool) : Ledger → List Move → Prop
  | _, [] => True
  | ledger, .instr p i :: moves =>
    ledger.Admits (hidden p) i ∧ (ledger.put (hidden p) i).Allows hidden moves
  | ledger, _ :: moves => ledger.settle.Allows hidden moves

/-- Behind some moves. -/
def afterAll (hidden : Spot → Bool) (moves : List Move) : Ledger :=
  moves.foldl (fun ledger move => ledger.after hidden move) ledger

variable {ledger} {hidden : Spot → Bool}

theorem slot?_eq_some {operand : Operand} {n turn : Nat} :
    ledger.slot? operand = some (n, turn) ↔ operand = .temp n ∧ ledger.turns n = turn := by
  cases operand with
  | temp m =>
      simp only [slot?, Operand.temp?, Option.map_some, Option.some.injEq, Prod.mk.injEq,
        Operand.temp.injEq]
      grind
  | named | symbol | bool | int => simp [slot?, Operand.temp?]

theorem allows_append {first second : List Move} : ledger.Allows hidden (first ++ second) ↔
    ledger.Allows hidden first ∧ (ledger.afterAll hidden first).Allows hidden second := by
  induction first generalizing ledger with
  | nil => simp [Allows, afterAll]
  | cons move first ih =>
      cases move with
      | instr => simp only [List.cons_append, Allows, ih, and_assoc]; rfl
      | jump | branch | ret => exact ih

theorem afterAll_append (first second : List Move) :
    ledger.afterAll hidden (first ++ second) =
      (ledger.afterAll hidden first).afterAll hidden second := by
  simp [afterAll]

/-! ## What one instruction does -/

/-- What an instruction can do to a ledger. -/
inductive Effect (ledger : Ledger) : Instr → Ledger → Prop where
  | allocates : Effect ledger (.alloca (.temp n) type) (ledger.allocate n type)
  | defines {n : Nat} {source : Option (Nat × Nat)} :
      i.dest = some (.temp n) → Effect ledger i (ledger.define n source)
  /-- Only the call that gets a slot right after its allocation gives it a result. -/
  | gives :
      ledger.fresh = some n →
      Effect ledger (.call none returns callee (args ++ [⟨pointer, .temp n⟩])) (ledger.mark n .given)
  | spends {n : Nat} : i.dest = none → Effect ledger i (ledger.mark n .spent)
  | settles : (∀ n, i.dest ≠ some (.temp n)) → Effect ledger i ledger.settle

theorem pass_effect {args : List TypedOperand} {last : TypedOperand} {n : Nat}
    (at_end : args.getLast? = some last) (temp : last.operand.temp? = some n) (released : Bool)
    (returns : IrType) (callee : String) :
    ledger.Effect (.call none returns callee args) (ledger.pass released n) := by
  obtain ⟨pointer, operand⟩ := last
  cases operand with
  | temp m =>
      cases temp
      obtain ⟨before, rfl⟩ := List.getLast?_eq_some_iff.mp at_end
      unfold pass
      split
      · exact .spends rfl
      · split
        · next fresh => exact .gives fresh
        · exact .settles (by simp [Instr.dest])
  | named | symbol | bool | int => cases temp

theorem put_effect (released : Bool) (i : Instr) : ledger.Effect i (ledger.put released i) := by
  unfold put
  split
  · exact .allocates
  · next n type source => exact .defines (n := n) rfl
  · split
    · exact .spends rfl
    · exact .settles (by simp [Instr.dest])
  · next args =>
      split
      · next n found =>
          obtain ⟨last, at_end, temp⟩ := Option.bind_eq_some_iff.mp found
          exact pass_effect at_end temp released _ _
      · exact .settles (by simp [Instr.dest])
  · split
    · next n dest => exact .defines dest
    · next other => exact .settles other

/-- A store uses up at most the slot that the stored value was loaded from. -/
theorem put_store (released : Bool) (stored : IrType) (operand dest : Operand) :
    ledger.put released (.store ⟨stored, operand⟩ dest) = ledger.settle ∨
      ∃ n turn, ledger.origin? operand = some (n, turn) ∧
        ledger.put released (.store ⟨stored, operand⟩ dest) = ledger.mark n .spent := by
  cases dest with
  | named name =>
      cases loaded : ledger.origin? operand with
      | none => exact .inl (by simp [put, loaded])
      | some known => exact .inr ⟨_, _, rfl, by simp [put, loaded]⟩
  | temp | symbol | bool | int => exact .inl rfl

/-- A call gives at most one slot a result. -/
theorem put_call (returns : IrType) (callee : String) (args : List TypedOperand) :
    ledger.put false (.call none returns callee args) = ledger.settle ∨
      ∃ n, ledger.put false (.call none returns callee args) = ledger.mark n .given := by
  cases last : args.getLast?.bind fun arg => arg.operand.temp? with
  | none => exact .inl (by simp [put, last])
  | some n =>
      by_cases fresh : ledger.fresh = some n
      · exact .inr ⟨n, by simp [put, last, pass, fresh]⟩
      · exact .inl (by simp [put, last, pass, fresh])

section

variable {n k : Nat} {i : Instr} {later : Ledger}

theorem Effect.of_fresh (effect : ledger.Effect i later) (h : later.fresh = some n) :
    ∃ type, i = .alloca (.temp n) type := by
  cases effect with
  | allocates =>
      cases h
      exact ⟨_, rfl⟩
  | defines | gives | spends | settles => cases h

theorem Effect.of_given (effect : ledger.Effect i later) (h : later.phase n = .given) :
    (ledger.phase n = .given ∧ i.dest ≠ some (.temp n)) ∨
      ledger.fresh = some n ∧ ∃ returns callee args pointer,
        i = .call none returns callee (args ++ [⟨pointer, .temp n⟩]) := by
  cases effect with
  | @allocates m =>
      by_cases eq : n = m
      · simp [eq, allocate, define] at h
      · exact .inl (by simp_all [allocate, define, Instr.dest, Ne.symm eq])
  | @defines _ m _ dest =>
      by_cases eq : n = m
      · simp [eq, define] at h
      · exact .inl (by simp_all [define, Ne.symm eq])
  | @gives m returns callee args pointer fresh =>
      by_cases eq : n = m
      · subst eq
        exact .inr ⟨fresh, _, _, _, _, rfl⟩
      · exact .inl (by simp_all [mark, Instr.dest])
  | @spends _ m dest =>
      by_cases eq : n = m
      · simp [eq, mark] at h
      · exact .inl (by simp_all [mark])
  | settles other => exact .inl ⟨h, other n⟩

theorem Effect.spent (effect : ledger.Effect i later) (keeps : i.dest ≠ some (.temp n))
    (h : ledger.phase n = .spent) (other : ledger.fresh ≠ some n) :
    later.phase n = .spent ∧ later.fresh ≠ some n := by
  cases effect with
  | @allocates m =>
      have ne : n ≠ m := by
        intro eq
        exact keeps (by rw [eq]; rfl)
      simp [allocate, define, h, ne, Ne.symm ne]
  | @defines _ m _ dest =>
      have ne : n ≠ m := by
        intro eq
        exact keeps (eq ▸ dest)
      simp [define, h, ne]
  | @gives m _ _ _ _ fresh =>
      have ne : n ≠ m := by
        intro eq
        exact other (eq ▸ fresh)
      simp [mark, h, ne]
  | @spends _ m =>
      by_cases eq : n = m
      · simp [mark, eq]
      · simp [mark, eq, h]
  | settles => exact ⟨h, by simp [settle]⟩

/-- Definitions of a register are counted. -/
theorem Effect.turns_le (effect : ledger.Effect i later) : ledger.turns n ≤ later.turns n ∧
    (i.dest = some (.temp n) → ledger.turns n < later.turns n) := by
  cases effect with
  | @allocates m =>
      by_cases eq : n = m
      · simp [allocate, define, eq]
      · simp [allocate, define, eq, Instr.dest, Ne.symm eq]
  | @defines _ m _ dest =>
      by_cases eq : n = m
      · simp [define, eq]
      · simp [define, eq, dest, Ne.symm eq]
  | gives => exact ⟨Nat.le_refl _, fun dest => by cases dest⟩
  | spends none => exact ⟨Nat.le_refl _, fun dest => by simp [none] at dest⟩
  | settles other => exact ⟨Nat.le_refl _, fun dest => absurd dest (other n)⟩

theorem Effect.origin (effect : ledger.Effect i later) (keeps : i.dest ≠ some (.temp k)) :
    later.origin k = ledger.origin k := by
  cases effect with
  | @allocates m =>
      have ne : k ≠ m := by
        intro eq
        exact keeps (by rw [eq]; rfl)
      simp [allocate, define, ne]
  | @defines _ m _ dest =>
      have ne : k ≠ m := by
        intro eq
        exact keeps (eq ▸ dest)
      simp [define, ne]
  | gives | spends | settles => rfl

end

/-! ## What moves do -/

section

variable {n k : Nat} {moves : List Move}

theorem afterAll_concat (moves : List Move) (move : Move) :
    ledger.afterAll hidden (moves ++ [move]) = (ledger.afterAll hidden moves).after hidden move := by
  simp [afterAll]

theorem holdsResult_concat {move : Move} (h : HoldsResult n moves) (keeps : move.Keeps n) :
    HoldsResult n (moves ++ [move]) := by
  obtain ⟨before, p, type, q, returns, callee, args, pointer, after, rfl, kept⟩ := h
  refine ⟨before, p, type, q, returns, callee, args, pointer, after ++ [move], by simp, ?_⟩
  intro other mem
  rcases List.mem_append.mp mem with mem | mem
  · exact kept other mem
  · exact List.mem_singleton.mp mem ▸ keeps

/-- A slot that was allocated by the last move is new. -/
theorem of_fresh_afterAll (h : (start.afterAll hidden moves).fresh = some n) :
    ∃ before p type, moves = before ++ [.instr p (.alloca (.temp n) type)] := by
  induction moves using List.reverseRecOn with
  | nil => cases h
  | append_singleton before move _ =>
      rw [afterAll_concat] at h
      cases move with
      | instr p i =>
          obtain ⟨type, rfl⟩ := (put_effect _ _).of_fresh h
          exact ⟨before, p, type, rfl⟩
      | jump | branch | ret => cases h

/-- A slot with a result got it from a call right after its allocation. -/
theorem holdsResult_of_given (h : (start.afterAll hidden moves).phase n = .given) :
    HoldsResult n moves := by
  induction moves using List.reverseRecOn with
  | nil => cases h
  | append_singleton moves move ih =>
      rw [afterAll_concat] at h
      cases move with
      | instr q i =>
          rcases (put_effect _ _).of_given h with ⟨given, keeps⟩ | ⟨fresh, called⟩
          · exact holdsResult_concat (ih given) keeps
          · obtain ⟨returns, callee, args, pointer, rfl⟩ := called
            obtain ⟨before, p, type, rfl⟩ := of_fresh_afterAll fresh
            exact ⟨before, p, type, q, returns, callee, args, pointer, [], by simp, by simp⟩
      | jump | branch | ret => exact holdsResult_concat (ih h) trivial

theorem spent_afterAll (keeps : ∀ move ∈ moves, move.Keeps n) (h : ledger.phase n = .spent)
    (other : ledger.fresh ≠ some n) : (ledger.afterAll hidden moves).phase n = .spent := by
  induction moves generalizing ledger with
  | nil => exact h
  | cons move moves ih =>
      obtain ⟨keep, keeps⟩ := List.forall_mem_cons.mp keeps
      have next : (ledger.after hidden move).phase n = .spent ∧
          (ledger.after hidden move).fresh ≠ some n := by
        cases move with
        | instr p i => exact (put_effect _ _).spent keep h other
        | jump | branch | ret => exact ⟨h, by simp [after, settle]⟩
      exact ih keeps next.1 next.2

theorem origin_afterAll (keeps : ∀ move ∈ moves, move.Keeps k) :
    (ledger.afterAll hidden moves).origin k = ledger.origin k := by
  induction moves generalizing ledger with
  | nil => rfl
  | cons move moves ih =>
      obtain ⟨keep, keeps⟩ := List.forall_mem_cons.mp keeps
      apply (ih keeps).trans
      cases move with
      | instr p i => exact (put_effect _ _).origin keep
      | jump | branch | ret => rfl

theorem turns_after (move : Move) : ledger.turns n ≤ (ledger.after hidden move).turns n ∧
    (¬ move.Keeps n → ledger.turns n < (ledger.after hidden move).turns n) := by
  cases move with
  | instr p i =>
      obtain ⟨le, lt⟩ := @Effect.turns_le ledger n i _ (put_effect (hidden p) i)
      exact ⟨le, fun defines => lt (not_not.mp defines)⟩
  | jump | branch | ret => exact ⟨Nat.le_refl _, fun defines => absurd trivial defines⟩

theorem turns_afterAll (moves : List Move) :
    ledger.turns n ≤ (ledger.afterAll hidden moves).turns n := by
  induction moves generalizing ledger with
  | nil => exact Nat.le_refl _
  | cons move moves ih => exact Nat.le_trans (turns_after move).1 ih

/-- Moves behind which a register was defined as often as before do not define it. -/
theorem keeps_of_turns (h : (ledger.afterAll hidden moves).turns n = ledger.turns n) :
    ∀ move ∈ moves, move.Keeps n := by
  induction moves generalizing ledger with
  | nil => simp
  | cons move moves ih =>
      obtain ⟨le, lt⟩ := @turns_after ledger hidden n move
      have later : (ledger.after hidden move).turns n ≤
          (ledger.afterAll hidden (move :: moves)).turns n := turns_afterAll moves
      have same : (ledger.afterAll hidden (move :: moves)).turns n =
          (ledger.after hidden move).turns n := by omega
      refine List.forall_mem_cons.mpr ⟨?_, ih same⟩
      by_contra defines
      have := lt defines
      omega

/-- Behind a teardown the slot is spent. -/
theorem spent_of_released {i : Instr} (admits : ledger.Admits true i) (touches : i.Touches (.temp n)) :
    (ledger.put true i).phase n = .spent ∧ (ledger.put true i).fresh ≠ some n := by
  obtain ⟨m, callee, pointer, rfl, _⟩ := admits.owned rfl
  have eq : n = m := by simpa [Instr.Touches, Instr.reads] using touches
  subst eq
  simp [put, Operand.temp?, pass, mark]

/-- Behind the store of what was loaded from a slot the slot is spent. -/
theorem spent_of_stored {released : Bool} {stored : IrType} {name : String} {turn : Nat}
    (h : ledger.origin k = some (n, turn)) :
    (ledger.put released (.store ⟨stored, .temp k⟩ (.named name))).phase n = .spent ∧
      (ledger.put released (.store ⟨stored, .temp k⟩ (.named name))).fresh ≠ some n := by
  simp [put, origin?, h, mark]

/-- Nothing reaches a spent slot until it is allocated again. -/
theorem not_touches_of_spent {between after : List Move} {move : Move}
    (allows : ledger.Allows hidden (between ++ move :: after))
    (h : ledger.phase n = .spent ∧ ledger.fresh ≠ some n) (keeps : ∀ move ∈ between, move.Keeps n) :
    ¬ move.Touches (.temp n) := by
  intro touches
  cases move with
  | instr p i =>
      have admits := (allows_append.mp allows).2.1
      exact admits.intact n touches (spent_afterAll keeps h.1 h.2)
  | jump | branch | ret => cases touches

end

/-! ## Soundness -/

theorem Allows.owned {moves before after : List Move} {p : Spot} {i : Instr}
    (allows : start.Allows hidden moves) (eq : moves = before ++ .instr p i :: after)
    (h : hidden p) : ∃ n callee pointer,
      i = .call none .void callee [⟨pointer, .temp n⟩] ∧ HoldsResult n before := by
  subst eq
  have admits := (allows_append.mp allows).2.1
  obtain ⟨n, callee, pointer, eq, given⟩ := admits.owned h
  exact ⟨n, callee, pointer, eq, holdsResult_of_given given⟩

theorem Allows.disused {moves before between after : List Move} {p : Spot} {i : Instr} {n : Nat}
    {move : Move} (allows : ledger.Allows hidden moves)
    (eq : moves = before ++ .instr p i :: (between ++ move :: after)) (h : hidden p)
    (touches : i.Touches (.temp n)) (keeps : ∀ move ∈ between, move.Keeps n) :
    ¬ move.Touches (.temp n) := by
  subst eq
  obtain ⟨admits, onward⟩ := (allows_append.mp allows).2
  rw [h] at admits onward
  exact not_touches_of_spent onward (spent_of_released admits touches) keeps

/-- What was loaded from a slot comes from there until the register is defined again. -/
theorem origin_of_loaded {n k : Nat} {type : IrType} {p : Spot} {between : List Move}
    (keeps : ∀ move ∈ between, move.Keeps k) :
    (ledger.afterAll hidden (.instr p (.load (.temp k) type (.temp n)) :: between)).origin k =
      some (n, ledger.turns n) := by
  have still := @origin_afterAll (ledger.put (hidden p) (.load (.temp k) type (.temp n))) hidden k
    between keeps
  apply still.trans
  simp [put, define, slot?, Operand.temp?]

/-- A slot whose contents are stored is not allocated again between the load and the store. -/
theorem keeps_of_stored {n k : Nat} {type stored : IrType} {p : Spot} {between : List Move}
    {released : Bool} {name : String} (keep : (Move.instr p (.load (.temp k) type (.temp n))).Keeps n)
    (keeps : ∀ move ∈ between, move.Keeps k)
    (admits : (ledger.afterAll hidden (.instr p (.load (.temp k) type (.temp n)) :: between)).Admits
      released (.store ⟨stored, .temp k⟩ (.named name))) :
    ∀ move ∈ between, move.Keeps n := by
  have turns := (admits.kept stored (.temp k) name rfl n _ (origin_of_loaded keeps)).2
  have ne : k ≠ n := by
    rintro rfl
    exact keep rfl
  have same : (ledger.put (hidden p) (.load (.temp k) type (.temp n))).turns n = ledger.turns n := by
    simp [put, define, ne.symm]
  exact @keeps_of_turns (ledger.put (hidden p) (.load (.temp k) type (.temp n))) hidden n between
    (turns.trans same.symm)

/-- One of some moves comes before a move, is this move, or comes behind it. -/
theorem mem_split {moves after before last : List Move} {middle move : Move}
    (eq : moves ++ after = before ++ middle :: last) (mem : move ∈ moves) :
    move ∈ before ∨ move = middle ∨ ∃ earlier rest, last = earlier ++ move :: rest ∧
      ∀ other ∈ earlier, other ∈ moves := by
  rcases List.append_eq_append_iff.mp eq with ⟨more, rfl, _⟩ | ⟨more, rfl, behind⟩
  · exact .inl (List.mem_append_left _ mem)
  · rcases List.mem_append.mp mem with mem | mem
    · exact .inl mem
    · cases more with
      | nil => cases mem
      | cons first more =>
          obtain ⟨rfl, rfl⟩ := List.cons.inj behind
          rcases List.mem_cons.mp mem with rfl | mem
          · exact .inr (.inl rfl)
          · obtain ⟨earlier, rest, rfl⟩ := List.append_of_mem mem
            exact .inr (.inr ⟨earlier, rest ++ after, by simp, fun other mem => by simp [mem]⟩)

/-- If what a slot holds is moved out, then no teardown of it comes before that or behind it. -/
theorem Allows.kept {moves before between after : List Move} {n : Nat}
    (allows : ledger.Allows hidden moves) (eq : moves = before ++ (between ++ after))
    (keeps : ∀ move ∈ between, move.Keeps n) (moved : MovedOut n between after) {p : Spot} {i : Instr}
    (mem : .instr p i ∈ between) (h : hidden p) : ¬ i.Touches (.temp n) := by
  intro touches
  subst eq
  obtain ⟨first, r, k, type, rest, second, q, stored, name, last, rfl, eq, keeps'⟩ := moved
  have whole : first ++ .instr r (.load (.temp k) type (.temp n)) :: rest ++ after =
      (first ++ .instr r (.load (.temp k) type (.temp n)) :: second) ++
        .instr q (.store ⟨stored, .temp k⟩ (.named name)) :: last := by
    simp only [List.append_assoc, List.cons_append, eq]
  have allows := (allows_append.mp allows).2
  rw [whole] at allows
  obtain ⟨upwards, admits, onward⟩ := allows_append.mp allows
  have keep_load := keeps (.instr r (.load (.temp k) type (.temp n))) (by simp)
  rw [afterAll_append] at admits
  have unspent := (admits.kept stored (.temp k) name rfl n _ (origin_of_loaded keeps')).1
  have kept : ∀ move ∈ first ++ .instr r (.load (.temp k) type (.temp n)) :: second,
      move.Keeps n := by
    intro move mem
    rcases List.mem_append.mp mem with mem | mem
    · exact keeps move (by simp [mem])
    · rcases List.mem_cons.mp mem with rfl | mem
      · exact keep_load
      · exact keeps_of_stored keep_load keeps' admits move mem
  rcases mem_split whole mem with mem | eq | ⟨earlier, rest', rfl, among⟩
  · -- A teardown before the store leaves the slot spent where the store needs it.
    obtain ⟨earlier, others, split⟩ := List.append_of_mem mem
    rw [split] at upwards kept
    obtain ⟨admits', -⟩ := (allows_append.mp upwards).2
    rw [h] at admits'
    have spent := spent_of_released admits' touches
    apply unspent
    rw [← afterAll_append, split, afterAll_append]
    have still := @spent_afterAll _ hidden _ others (fun move mem => kept move (by simp [mem])) spent.1
      spent.2
    rwa [← h] at still
  · -- The store itself is no teardown.
    cases eq
    obtain ⟨_, _, _, eq, _⟩ := admits.owned h
    cases eq
  · -- Behind the store the slot is spent, and a teardown would reach it.
    rw [afterAll_append] at onward
    exact not_touches_of_spent onward (spent_of_stored (origin_of_loaded keeps'))
      (fun move mem => keeps move (among move mem)) touches

/-- Moves that the ledger allows from the start on tear slots down soundly. -/
theorem Allows.safe {moves : List Move} (allows : start.Allows hidden moves) :
    Safe hidden moves where
  owned := fun _ _ _ _ eq h => allows.owned eq h
  disused := fun _ _ _ _ _ _ _ eq h touches keeps => allows.disused eq h touches keeps
  kept := fun _ _ _ _ eq keeps moved _ _ mem h => allows.kept eq keeps moved mem h

end Ledger

end LlvmBackend.Ir
