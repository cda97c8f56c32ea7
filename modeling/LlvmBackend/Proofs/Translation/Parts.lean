import LlvmBackend.Preamble
import LlvmBackend.Proofs.Code.Parts
import LlvmBackend.Proofs.Code.Traces
import LlvmBackend.Proofs.Translation

/-! # Parts of translated code

What the code of expressions is made of: it looks names up, calls what the source names with
operands of the types that this takes, tears values down by the methods of their types, and stores
only to temporaries. Statements also give values to variables, which are the targets of the source.
-/

namespace LlvmBackend

open Ir
open Lowering (teardown next Connective)

namespace Code

/-- All parts of code have a property. -/
def All (P : Part → Prop) (code : Code) : Prop := ∀ part ∈ code.parts, P part

variable {P : Part → Prop}

theorem All.of_sublist {first code : Code} (all : All P code) (sub : first.parts.Sublist code.parts) :
    All P first :=
  fun part mem => all part (sub.subset mem)

@[simp] theorem all_skip : All P .skip := by simp [All, parts]

@[simp] theorem all_seq {first second : Code} :
    All P (.seq first second) ↔ All P first ∧ All P second := by
  simp [All, parts, or_imp, forall_and]

@[simp] theorem all_instr {role : Role} {i : Instr} :
    All P (.instr role i) ↔ P (.instr role i) := by
  simp [All, parts]

@[simp] theorem all_read {name : String} {rebound : Bool} {value : Value} :
    All P (.read name rebound value) ↔ P (.read name rebound value) := by
  simp [All, parts]

@[simp] theorem all_slot {name : String} {type : IrType} :
    All P (.slot name type) ↔ P (.slot name type) := by
  simp [All, parts]

@[simp] theorem all_jump {source target : BlockId} :
    All P (.jump source target) ↔ P (.ends (.br target)) := by
  simp [All, parts]

@[simp] theorem all_ret {value : Option TypedOperand} :
    All P (.ret value) ↔ P (.ends (.ret value)) := by
  simp [All, parts]

@[simp] theorem all_fork {role : Role} {flag : Operand} {onTrue onFalse : BlockId}
    {whenTrue whenFalse : Code} : All P (.fork role flag onTrue onFalse whenTrue whenFalse) ↔
      P (.ends (.condBr flag onTrue onFalse)) ∧ All P whenTrue ∧ All P whenFalse := by
  simp [All, parts, or_imp, forall_and]

@[simp] theorem all_loop {body fin : BlockId} {test turn : Code} {flag : Operand} :
    All P (.loop body fin test flag turn) ↔
      P (.ends (.condBr flag body fin)) ∧ All P test ∧ All P turn := by
  simp only [All, parts, List.mem_append, List.mem_cons, or_imp, forall_and, forall_eq]
  tauto

@[simp] theorem all_sides {taken : Bool} {flag : Operand} {a b : BlockId} {first second : Code} :
    All P (.sides taken flag a b first second) ↔
      P (.ends (.sides taken flag a b)) ∧ All P first ∧ All P second := by
  cases taken <;> simp [sides, Terminator.sides, and_comm]

theorem all_leading {code : Code} {ended : Bool} {source fin : BlockId}
    (ends : P (.ends (.br fin))) : All P (code.leading ended source fin) ↔ All P code := by
  cases ended <;> simp [leading, ends]

end Code

mutual

/-- The names that a statement gives values to. -/
def Stmt.targets : Stmt → List String
  | .assign target _ => [target]
  | .ifChain arms => armsTargets arms
  | .whileLoop _ body => suiteTargets body
  | .forLoop target _ body => target :: suiteTargets body
  | .ret _ | .effect _ => []

def suiteTargets : List Stmt → List String
  | [] => []
  | first :: rest => first.targets ++ suiteTargets rest

def armsTargets : List Arm → List String
  | [] => []
  | .mk _ body :: rest => suiteTargets body ++ armsTargets rest

end

def Translation.Work.targets : Translation.Work → List String
  | .stmt statement => statement.targets
  | .suite statements => suiteTargets statements
  | .arms _ rest => armsTargets rest

/-- What a call of the source can be given: an operator gives its method the operand that this
    takes, and common names stand for their methods. -/
def Callee.Suits (types : Registry) : Callee → List TypeId → Prop
  | .protocol name shared, _ => (name, shared) ∈ protocols
  | .function _, _ => True
  | .method type name, given => ∃ op : BinaryOperator, name = op.method ∧ ∃ entry argument,
      types.method type name = some entry ∧ given = [type, argument] ∧
        Translation.Accepts types entry argument

/-- The types of the operands of a call: the arguments as their types want it and a place for the
    result. -/
def Registry.callTypes (types : Registry) (given : List TypeId) (returns : TypeId) : List IrType :=
  given.map types.paramIr ++ Preamble.resultParam types returns

/-- A property admits what the code of expressions is made of besides look-ups. -/
structure Admits (env : Surroundings) (P : Part → Prop) : Prop where
  ends : ∀ terminator, P (.ends terminator)
  plain : ∀ i, i.callee? = none → (∀ slot ∈ i.gives?, ∃ n, slot = .temp n) → P (.instr .plain i)
  call : ∀ (callee : Callee) given (target : Target) operands, callee.Suits env.types given →
    callee.bind env.types env.signatures given = .ok target →
    operands.map TypedOperand.type = env.types.callTypes given target.returns →
    P (.instr .plain (.call none .void target.symbol operands))
  release : ∀ type entry address, env.types.method type teardown = some entry →
    P (.instr .release (Translation.teardownCall env.types type entry address))

theorem Admits.instr {env : Surroundings} {P : Part → Prop} (admits : Admits env P) {i : Instr}
    (other : i.callee? = none) (gives : ∀ slot ∈ i.gives?, ∃ n, slot = .temp n) :
    (Code.instr .plain i).All P := Code.all_instr.mpr (admits.plain i other gives)

namespace Translation

variable {env : Surroundings} {P : Part → Prop} {v w : Value}

/-! ## Operands of calls -/

theorem Passes.type_eq {types : Registry} {operand : TypedOperand}
    (passes : Passes types v code operand w) : operand.type = types.paramIr v.type := by
  cases passes with
  | byValue byValue => exact (if_pos byValue).symm
  | byAddress byAddress => exact (if_neg byAddress).symm

theorem PassesAll.types_eq {types : Registry} {vs ws : List Value} {operands : List TypedOperand}
    (passes : PassesAll types vs code operands ws) :
    operands.map TypedOperand.type = (vs.map (·.type)).map types.paramIr := by
  induction passes with
  | nil => rfl
  | cons first _ ih => rw [List.map_cons, first.type_eq, ih, List.map_cons, List.map_cons]

theorem suits_resolve {name : String} {callee : Callee}
    (resolved : Callee.resolve name env.signatures = .ok callee) (given : List TypeId) :
    callee.Suits env.types given := by
  unfold Callee.resolve at resolved
  split at resolved
  · next shared found =>
      cases resolved
      obtain ⟨before, after, eq, _⟩ := List.lookup_eq_some_iff.mp found
      rw [Callee.Suits, eq]
      exact List.mem_append_right _ List.mem_cons_self
  · split at resolved
    · cases resolved
      trivial
    · cases resolved

/-! ## Expressions -/

section

variable (admits : Admits env P)
include admits

theorem Loads.all (loads : Loads env.types v code operand w) : code.All P := by
  cases loads with
  | direct | cached => exact Code.all_skip
  | addressed => exact admits.instr rfl (by simp [Instr.gives?])

theorem Places.all (places : Places env.types v code address w) : code.All P := by
  cases places with
  | addressed | cached => exact Code.all_skip
  | direct =>
      exact Code.all_seq.mpr
        ⟨admits.instr rfl (by simp [Instr.gives?]), admits.instr rfl (by simp [Instr.gives?])⟩

theorem Passes.all {operand : TypedOperand} (passes : Passes env.types v code operand w) :
    code.All P := by
  cases passes with
  | byValue _ loads => exact loads.all admits
  | byAddress _ places => exact places.all admits

theorem PassesAll.all {vs ws : List Value} {operands : List TypedOperand}
    (passes : PassesAll env.types vs code operands ws) : code.All P := by
  induction passes with
  | nil => exact Code.all_skip
  | cons first _ ih => exact Code.all_seq.mpr ⟨first.all admits, ih⟩

theorem Releases.all (releases : Releases env.types v code) : code.All P := by
  cases releases with
  | nothing => exact Code.all_skip
  | always _ entry => exact Code.all_instr.mpr (admits.release _ _ _ entry)
  | guarded _ entry =>
      exact Code.all_fork.mpr ⟨admits.ends _, Code.all_seq.mpr
        ⟨Code.all_instr.mpr (admits.release _ _ _ entry), Code.all_jump.mpr (admits.ends _)⟩,
        Code.all_skip⟩

theorem ReleasesAll.all {vs : List Value} (releases : ReleasesAll env.types vs code) :
    code.All P := by
  induction releases with
  | nil => exact Code.all_skip
  | cons first _ ih => exact Code.all_seq.mpr ⟨first.all admits, ih⟩

theorem Owners.all {type : TypeId} {first second : Binding × BlockId} {binding : Binding}
    (owners : Owners env.types type first second code binding) : code.All P := by
  cases owners with
  | temporary | stable => exact Code.all_skip
  | flag => exact admits.instr rfl (by simp [Instr.gives?])

theorem Joins.all {type : TypeId} {first second : Operand × Binding × BlockId}
    (joins : Joins env.types type first second code v) : code.All P := by
  cases joins with
  | intro _ owners =>
      exact Code.all_seq.mpr ⟨admits.instr rfl (by simp [Instr.gives?]), owners.all admits⟩

theorem Dispatches.all {callee : Callee} {args : List Value} {result : Option Value}
    (dispatches : Dispatches env callee args code result)
    (suits : callee.Suits env.types (args.map (·.type))) : code.All P := by
  cases dispatches with
  | void bound passes void releases =>
      refine Code.all_seq.mpr ⟨passes.all admits, Code.all_seq.mpr
        ⟨Code.all_instr.mpr (admits.call _ _ _ _ suits bound ?_), releases.all admits⟩⟩
      rw [passes.types_eq, Registry.callTypes, Preamble.resultParam, if_pos void, List.append_nil]
  | result bound passes returns releases =>
      refine Code.all_seq.mpr ⟨passes.all admits, Code.all_seq.mpr
        ⟨admits.instr rfl (by simp [Instr.gives?]), Code.all_seq.mpr
          ⟨Code.all_instr.mpr (admits.call _ _ _ _ suits bound ?_), releases.all admits⟩⟩⟩
      rw [List.map_append, passes.types_eq, Registry.callTypes, Preamble.resultParam, if_neg returns]
      rfl

theorem Coerces.all (coerces : Coerces env v code w) : code.All P := by
  cases coerces with
  | already => exact Code.all_skip
  | calls _ dispatches =>
      exact dispatches.all admits (by simp [Callee.boolean, Callee.Suits, Callee.protocols])

theorem Tests.all {flag : Operand} (tests : Tests env v code flag) : code.All P := by
  cases tests with
  | intro coerces loads => exact Code.all_seq.mpr ⟨coerces.all admits, loads.all admits⟩

theorem Negates.all (negates : Negates env v code w) : code.All P := by
  cases negates with
  | intro loads =>
      exact Code.all_seq.mpr ⟨loads.all admits, admits.instr rfl (by simp [Instr.gives?])⟩

theorem Operates.all {op : BinaryOperator} {left right : Value}
    (operates : Operates env op left right code v) : code.All P := by
  cases operates with
  | plain found accepts dispatches =>
      exact dispatches.all admits ⟨op, rfl, _, _, found, rfl, accepts⟩
  | negated found accepts dispatches _ negates =>
      exact Code.all_seq.mpr
        ⟨dispatches.all admits ⟨op, rfl, _, _, found, rfl, accepts⟩, negates.all admits⟩

theorem Decides.all {connective : Connective} {left right : Value} {flag : Operand}
    {atRight : Code} (decides : Decides env connective left right flag atRight code v)
    (h : atRight.All P) : code.All P := by
  cases decides with
  | alike _ placesRight releases placesLeft _ joins =>
      simp only [Code.all_seq, Code.all_sides, Code.all_jump]
      exact ⟨⟨admits.ends _, ⟨⟨h, placesRight.all admits, releases.all admits⟩, admits.ends _⟩,
        placesLeft.all admits, admits.ends _⟩, joins.all admits⟩
  | flags _ tests releases =>
      simp only [Code.all_seq, Code.all_sides, Code.all_jump, Code.all_instr, Code.all_skip]
      exact ⟨⟨⟨admits.ends _, ⟨⟨h, tests.all admits⟩, admits.ends _⟩, trivial, admits.ends _⟩,
        admits.plain _ rfl (by simp [Instr.gives?])⟩, releases.all admits⟩

theorem Connects.all {connective : Connective} {left right : Value} {atLeft atRight : Code}
    (connects : Connects env connective left right atLeft atRight code v) (h₁ : atLeft.All P)
    (h₂ : atRight.All P) : code.All P := by
  cases connects with
  | intro tests decides =>
      exact Code.all_seq.mpr ⟨h₁, Code.all_seq.mpr ⟨tests.all admits, decides.all admits h₂⟩⟩

theorem Chooses.all {test onTrue onFalse : Value} {atTest atTrue atFalse : Code}
    (chooses : Chooses env test onTrue onFalse atTest atTrue atFalse code v) (h₁ : atTest.All P)
    (h₂ : atTrue.All P) (h₃ : atFalse.All P) : code.All P := by
  cases chooses with
  | intro _ tests placesTrue placesFalse _ joins =>
      simp only [Code.all_seq, Code.all_sides, Code.all_jump]
      exact ⟨⟨h₁, tests.all admits⟩, ⟨admits.ends _, ⟨⟨h₂, placesTrue.all admits⟩, admits.ends _⟩,
        ⟨h₃, placesFalse.all admits⟩, admits.ends _⟩, joins.all admits⟩

theorem Indexes.all {container position : Value} {atContainer atPosition : Code}
    (indexes : Indexes env container position atContainer atPosition code v)
    (h₁ : atContainer.All P) (h₂ : atPosition.All P) : code.All P := by
  cases indexes with
  | intro _ _ _ loads loads' releases =>
      simp only [Code.all_seq, Code.all_instr]
      exact ⟨h₁, h₂, loads.all admits, loads'.all admits,
        admits.plain _ rfl (by simp [Instr.gives?]), releases.all admits⟩

/-- What the code of expressions is made of. -/
theorem Evaluates.all {names : Names} {phrase : Phrase} {vs : List Value}
    (evaluates : Evaluates env names phrase vs code)
    (reads : ∀ name value, names.scopes.lookup name = some value →
      P (.read name (names.scopes.lookupLocal name).isSome value)) : code.All P := by
  induction evaluates with
  | literal | nil => exact Code.all_skip
  | name found => exact Code.all_read.mpr (reads _ _ found)
  | binary _ _ operates ih₁ ih₂ =>
      exact Code.all_seq.mpr ⟨ih₁, Code.all_seq.mpr ⟨ih₂, operates.all admits⟩⟩
  | not _ coerces negates ih =>
      exact Code.all_seq.mpr ⟨ih, Code.all_seq.mpr ⟨coerces.all admits, negates.all admits⟩⟩
  | and _ _ connects ih₁ ih₂ | or _ _ connects ih₁ ih₂ => exact connects.all admits ih₁ ih₂
  | ternary _ _ _ chooses ih₁ ih₂ ih₃ => exact chooses.all admits ih₁ ih₂ ih₃
  | index _ _ indexes ih₁ ih₂ => exact indexes.all admits ih₁ ih₂
  | call resolved _ dispatches ih =>
      exact Code.all_seq.mpr ⟨ih, dispatches.all admits (suits_resolve resolved _)⟩
  | cons _ _ ih₁ ih₂ => exact Code.all_seq.mpr ⟨ih₁, ih₂⟩

end

/-! ## Statements -/

theorem SlotFor.all {types : Registry} {names names' : Names} {name : String} {type : TypeId}
    {slot : Operand} (slotFor : SlotFor types names name type slot code names')
    (slots : ∀ type, P (.slot (names.freeName name) type)) : code.All P := by
  cases slotFor with
  | reused => exact Code.all_skip
  | new => exact Code.all_slot.mpr (slots _)

/-- A property admits what the code of statements is made of besides slots. -/
structure AdmitsWork (env : Surroundings) (P : Part → Prop) : Prop extends Admits env P where
  reads : ∀ name rebound value, P (.read name rebound value)
  stores : ∀ role value slot, role ≠ .plain → role ≠ .release → P (.instr role (.store value slot))
  nexts : ∀ target receiver entry element n iterator slot,
    env.types.method receiver next = some entry → env.types.resolve entry.returns = .ok element →
    P (.instr (.write target element) (.call (some (.temp n)) .i1 entry.symbol
      [⟨.ptr ⟨env.types.ir receiver⟩, iterator⟩, ⟨.ptr ⟨env.types.ir element⟩, slot⟩]))

section

variable (admits : AdmitsWork env P)
include admits

theorem Leaves.all {names : Names} {value : Option Expr} (leaves : Leaves env names value code) :
    code.All P := by
  cases leaves with
  | bare => exact Code.all_ret.mpr (admits.ends _)
  | dropped _ evaluates =>
      exact Code.all_seq.mpr ⟨evaluates.all admits.toAdmits fun _ _ _ => admits.reads _ _ _,
        Code.all_ret.mpr (admits.ends _)⟩
  | result _ _ evaluates loads =>
      simp only [Code.all_seq, Code.all_instr, Code.all_ret]
      exact ⟨evaluates.all admits.toAdmits fun _ _ _ => admits.reads _ _ _,
        loads.all admits.toAdmits, admits.stores _ _ _ (by simp) (by simp), admits.ends _⟩

/-- What the code of statements is made of, if it does not matter what names stand for. -/
theorem Lowers.all {work : Work} {names names' : Names} {ended : Bool}
    (lowers : Lowers env work names names' ended code)
    (slots : ∀ names : Names, ∀ name ∈ work.targets, ∀ type, P (.slot (names.freeName name) type)) :
    code.All P := by
  have reads : ∀ {names : Names} name value, names.scopes.lookup name = some value →
      P (.read name (names.scopes.lookupLocal name).isSome value) := fun _ _ _ => admits.reads _ _ _
  induction lowers with
  | assign evaluates loads slotFor =>
      simp only [Code.all_seq, Code.all_instr]
      exact ⟨evaluates.all admits.toAdmits reads, loads.all admits.toAdmits,
        slotFor.all (slots _ _ (List.mem_singleton_self _)),
        admits.stores _ _ _ (by simp) (by simp)⟩
  | noArms => exact Code.all_seq.mpr ⟨Code.all_skip, Code.all_jump.mpr (admits.ends _)⟩
  | ifChain _ ih => exact ih slots
  | whileLoop evaluates tests _ ih =>
      simp only [Code.all_seq, Code.all_jump, Code.all_loop, Code.all_leading (admits.ends _)]
      exact ⟨admits.ends _, admits.ends _,
        ⟨evaluates.all admits.toAdmits reads, tests.all admits.toAdmits⟩, ih slots⟩
  | forLoop evaluates found resolved places slotFor _ _ releases ih =>
      simp only [Code.all_seq, Code.all_jump, Code.all_loop, Code.all_instr,
        Code.all_leading (admits.ends _)]
      exact ⟨evaluates.all admits.toAdmits reads, places.all admits.toAdmits,
        slotFor.all (slots _ _ List.mem_cons_self), ⟨admits.ends _, admits.ends _,
          admits.nexts _ _ _ _ _ _ _ found resolved,
          ih fun names name mem => slots names name (List.mem_cons_of_mem _ mem)⟩,
        releases.all admits.toAdmits⟩
  | ret leaves => exact leaves.all admits
  | effect evaluates => exact evaluates.all admits.toAdmits reads
  | nil => exact Code.all_skip
  | ends _ ih => exact ih fun names name mem => slots names name (List.mem_append_left _ mem)
  | goesOn _ _ ih₁ ih₂ =>
      exact Code.all_seq.mpr
        ⟨ih₁ fun names name mem => slots names name (List.mem_append_left _ mem),
          ih₂ fun names name mem => slots names name (List.mem_append_right _ mem)⟩
  | otherwise _ ih =>
      exact (Code.all_leading (admits.ends _)).mpr
        (ih fun names name mem => slots names name (List.mem_append_left _ mem))
  | lastArm evaluates tests _ ih =>
      simp only [Code.all_seq, Code.all_fork, Code.all_leading (admits.ends _), Code.all_skip]
      exact ⟨⟨evaluates.all admits.toAdmits reads, tests.all admits.toAdmits⟩, admits.ends _,
        ih fun names name mem => slots names name (List.mem_append_left _ mem), trivial⟩
  | arm evaluates tests _ _ ih₁ ih₂ =>
      simp only [Code.all_seq, Code.all_fork, Code.all_leading (admits.ends _)]
      exact ⟨⟨evaluates.all admits.toAdmits reads, tests.all admits.toAdmits⟩, admits.ends _,
        ih₁ fun names name mem => slots names name (List.mem_append_left _ mem),
        ih₂ fun names name mem => slots names name (List.mem_append_right _ mem)⟩

end

/-! ## Results -/

/-- The code of expressions passes no result on. -/
theorem admits_free : Admits env fun part => ∀ i, part ≠ .instr .result i :=
  ⟨by simp, by simp, by simp, by simp⟩

end Translation

end LlvmBackend
