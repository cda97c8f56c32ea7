import LlvmBackend.Proofs.Code.Fills
import LlvmBackend.Proofs.Supply
import LlvmBackend.Proofs.Translation.Parts
import LlvmBackend.Proofs.Translation.Traces

/-! # Iterators of translated loops

Which storage the iterator of a loop may be in, and what the code of the loop gives values to besides
what it allocates. A name that is rebound in a loop keeps its slot up to the first binding with
another type.
-/

namespace LlvmBackend

open Ir Reference
open Lowering (Connective resultName)

namespace Reference

/-- A loop over an iterator, and what is known of names before it. -/
structure Iteration where
  typing : Typing
  target : String
  source : Expr
  body : List Stmt

variable (types : Registry) (signatures : SignatureTable)

/-- The names whose storage the value of an expression may be in. -/
def denoted (typing : Typing) : Expr → List String
  | .name name => [name]
  | .and left right | .or left right =>
    if typeOf types signatures typing right = typeOf types signatures typing left then
      denoted typing left ++ denoted typing right
    else []
  | .ternary _ onTrue onFalse => denoted typing onTrue ++ denoted typing onFalse
  | _ => []

mutual

/-- The loops over iterators in a statement, in their order. -/
def stmtIterations (typing : Typing) : Stmt → List Iteration
  | .assign _ _ | .effect _ | .ret _ => []
  | .ifChain arms => armsIterations typing arms
  | .whileLoop _ body => suiteIterations typing body
  | .forLoop target source body =>
    ⟨typing, target, source, body⟩ :: suiteIterations
      (typing.bind target (elementOf types (typeOf types signatures typing source))) body

def suiteIterations (typing : Typing) : List Stmt → List Iteration
  | [] => []
  | first :: rest =>
    stmtIterations typing first ++
      if isReturn first then []
      else suiteIterations (typing.bindAll (stmtBindings types signatures typing first)) rest

def armsIterations (typing : Typing) : List Arm → List Iteration
  | [] => []
  | .mk none body :: _ => suiteIterations typing body
  | .mk (some _) body :: rest =>
    suiteIterations typing body ++
      armsIterations (typing.bindAll (suiteBindings types signatures typing body)) rest

end

namespace Iteration

variable (iteration : Iteration)

/-- What a turn of a loop binds, its target first. -/
def bindings : Bindings :=
  stmtBindings types signatures iteration.typing
    (.forLoop iteration.target iteration.source iteration.body)

/-- The iterator is in the storage of a variable, and the first binding of this variable in the loop
    is to a value of the same type. -/
def Rebinds : Prop :=
  ∃ name ∈ denoted types signatures iteration.typing iteration.source,
    (iteration.typing name).rebound ∧
      (iteration.bindings types signatures).lookup name = some (iteration.typing name).type

end Iteration

end Reference

/-! ## Code that fills only what it allocates -/

/-- Code fills only temporaries of its own, and does not go round for an iterator. -/
structure Code.Private (code : Code) : Prop where
  fills : ∀ storage ∈ code.fills, ∃ n ∈ code.temps, storage = .temp n
  drives : code.drives = []

namespace Code.Private

variable {first second : Code}

theorem skip : Private .skip := ⟨by simp, rfl⟩

theorem jump {source target : BlockId} : Private (.jump source target) := ⟨by simp, rfl⟩

theorem instr {role : Role} {i : Instr} (none : i.fills = []) : Private (.instr role i) :=
  ⟨by simp [none], rfl⟩

theorem alloca {role : Role} {n : Nat} {type : IrType} :
    Private (.instr role (.alloca (.temp n) type)) :=
  ⟨by simp [Instr.fills, temps, Instr.number?, Instr.dest, Operand.temp?], rfl⟩

theorem seq (h₁ : first.Private) (h₂ : second.Private) : Private (.seq first second) where
  fills := by
    intro storage mem
    rw [fills_seq] at mem
    rcases List.mem_append.mp mem with mem | mem
    · obtain ⟨n, there, eq⟩ := h₁.fills storage mem
      exact ⟨n, List.mem_append_left _ there, eq⟩
    · obtain ⟨n, there, eq⟩ := h₂.fills storage mem
      exact ⟨n, List.mem_append_right _ there, eq⟩
  drives := by rw [Code.drives, h₁.drives, h₂.drives]; rfl

theorem fork {role : Role} {flag : Operand} {a b : BlockId} (h₁ : first.Private)
    (h₂ : second.Private) : Private (.fork role flag a b first second) :=
  have := h₁.seq h₂
  ⟨by simpa [temps] using this.fills, this.drives⟩

theorem sides {taken : Bool} {flag : Operand} {a b : BlockId} (h₁ : first.Private)
    (h₂ : second.Private) : Private (.sides taken flag a b first second) := by
  cases taken with
  | true => exact h₁.fork h₂
  | false => exact h₂.fork h₁

end Code.Private

namespace Translation

variable {env : Surroundings} {types : Registry} {v w : Value}

theorem Loads.isPrivate (loads : Loads types v code operand w) : code.Private := by
  cases loads with
  | direct | cached => exact .skip
  | addressed => exact .instr rfl

/-- A copy is stored where it was allocated. -/
theorem Places.isPrivate (places : Places types v code address w) : code.Private := by
  cases places with
  | addressed | cached => exact .skip
  | @direct type operand binding n =>
      refine ⟨?_, rfl⟩
      simp [Instr.fills, Instr.gives?, Code.temps, Instr.number?, Instr.dest, Operand.temp?]

theorem Passes.isPrivate {operand : TypedOperand} (passes : Passes types v code operand w) :
    code.Private := by
  cases passes with
  | byValue _ loads => exact loads.isPrivate
  | byAddress _ places => exact places.isPrivate

theorem PassesAll.isPrivate {vs ws : List Value} {operands : List TypedOperand}
    (passes : PassesAll types vs code operands ws) : code.Private := by
  induction passes with
  | nil => exact .skip
  | cons first _ ih => exact first.isPrivate.seq ih

theorem Releases.isPrivate (releases : Releases types v code) : code.Private := by
  cases releases with
  | nothing => exact .skip
  | always => exact .instr rfl
  | guarded => exact .fork (.seq (.instr rfl) .jump) .skip

theorem ReleasesAll.isPrivate {vs : List Value} (releases : ReleasesAll types vs code) :
    code.Private := by
  induction releases with
  | nil => exact .skip
  | cons first _ ih => exact first.isPrivate.seq ih

theorem Owners.isPrivate {type : TypeId} {first second : Binding × BlockId} {binding : Binding}
    (owners : Owners types type first second code binding) : code.Private := by
  cases owners with
  | temporary | stable => exact .skip
  | flag => exact .instr rfl

theorem Joins.isPrivate {type : TypeId} {first second : Operand × Binding × BlockId}
    (joins : Joins types type first second code v) : code.Private := by
  cases joins with
  | intro _ owners => exact .seq (.instr rfl) owners.isPrivate

theorem Dispatches.isPrivate {callee : Callee} {args : List Value} {result : Option Value}
    (dispatches : Dispatches env callee args code result) : code.Private := by
  cases dispatches with
  | void _ passes _ releases => exact passes.isPrivate.seq (.seq (.instr rfl) releases.isPrivate)
  | result _ passes _ releases =>
      exact passes.isPrivate.seq (.seq .alloca (.seq (.instr rfl) releases.isPrivate))

theorem Coerces.isPrivate (coerces : Coerces env v code w) : code.Private := by
  cases coerces with
  | already => exact .skip
  | calls _ dispatches => exact dispatches.isPrivate

theorem Tests.isPrivate {flag : Operand} (tests : Tests env v code flag) : code.Private := by
  cases tests with
  | intro coerces loads => exact coerces.isPrivate.seq loads.isPrivate

theorem Negates.isPrivate (negates : Negates env v code w) : code.Private := by
  cases negates with
  | intro loads => exact loads.isPrivate.seq (.instr rfl)

theorem Operates.isPrivate {op : BinaryOperator} {left right : Value}
    (operates : Operates env op left right code v) : code.Private := by
  cases operates with
  | plain _ _ dispatches => exact dispatches.isPrivate
  | negated _ _ dispatches _ negates => exact dispatches.isPrivate.seq negates.isPrivate

theorem Decides.isPrivate {connective : Connective} {left right : Value} {flag : Operand}
    {atRight : Code} (decides : Decides env connective left right flag atRight code v)
    (h : atRight.Private) : code.Private := by
  cases decides with
  | alike _ places releases places' _ joins =>
      exact .seq (.sides (.seq (h.seq (places.isPrivate.seq releases.isPrivate)) .jump)
        (places'.isPrivate.seq .jump)) joins.isPrivate
  | flags _ tests releases =>
      exact .seq (.seq (.sides (.seq (h.seq tests.isPrivate) .jump) (.seq .skip .jump))
        (.instr rfl)) releases.isPrivate

theorem Connects.isPrivate {connective : Connective} {left right : Value} {atLeft atRight : Code}
    (connects : Connects env connective left right atLeft atRight code v) (h₁ : atLeft.Private)
    (h₂ : atRight.Private) : code.Private := by
  cases connects with
  | intro tests decides => exact h₁.seq (tests.isPrivate.seq (decides.isPrivate h₂))

theorem Chooses.isPrivate {test onTrue onFalse : Value} {atTest atTrue atFalse : Code}
    (chooses : Chooses env test onTrue onFalse atTest atTrue atFalse code v) (h₁ : atTest.Private)
    (h₂ : atTrue.Private) (h₃ : atFalse.Private) : code.Private := by
  cases chooses with
  | intro _ tests places places' _ joins =>
      exact .seq (h₁.seq tests.isPrivate) (.seq (.sides (.seq (h₂.seq places.isPrivate) .jump)
        (.seq (h₃.seq places'.isPrivate) .jump)) joins.isPrivate)

theorem Indexes.isPrivate {container position : Value} {atContainer atPosition : Code}
    (indexes : Indexes env container position atContainer atPosition code v)
    (h₁ : atContainer.Private) (h₂ : atPosition.Private) : code.Private := by
  cases indexes with
  | intro _ _ _ loads loads' releases =>
      exact h₁.seq (h₂.seq (loads.isPrivate.seq (loads'.isPrivate.seq
        (.seq (.instr rfl) releases.isPrivate))))

/-- The code of expressions fills only what it allocates. -/
theorem Evaluates.isPrivate {names : Names} {phrase : Phrase} {vs : List Value}
    (evaluates : Evaluates env names phrase vs code) : code.Private := by
  induction evaluates with
  | literal | nil => exact .skip
  | name => exact ⟨by simp, rfl⟩
  | binary _ _ operates ih₁ ih₂ => exact ih₁.seq (ih₂.seq operates.isPrivate)
  | not _ coerces negates ih => exact ih.seq (coerces.isPrivate.seq negates.isPrivate)
  | and _ _ connects ih₁ ih₂ | or _ _ connects ih₁ ih₂ => exact connects.isPrivate ih₁ ih₂
  | ternary _ _ _ chooses ih₁ ih₂ ih₃ => exact chooses.isPrivate ih₁ ih₂ ih₃
  | index _ _ indexes ih₁ ih₂ => exact indexes.isPrivate ih₁ ih₂
  | call _ _ dispatches ih => exact ih.seq dispatches.isPrivate
  | cons _ _ ih₁ ih₂ => exact ih₁.seq ih₂

end Translation

/-! ## What values stand for -/

/-- What an address may stand for: temporaries of its own, constants, and the storage of names. -/
structure Stands (parts : List Part) (names : Names) (own : List Nat) (sources : List String)
    (address : Operand) : Prop where
  only : ∀ storage, Denotes parts address storage →
    (∃ n ∈ own, storage = .temp n) ∨ (∃ symbol, storage = .symbol symbol) ∨
      ∃ name ∈ sources, ∃ value, names.scopes.lookup name = some value ∧
        value.address = some storage
  all : ∀ name ∈ sources, ∀ value storage, names.scopes.lookup name = some value →
    value.address = some storage → Denotes parts address storage

/-- What a value may stand for. One that has no address does not come from a name that has one. -/
structure Value.Stands (parts : List Part) (names : Names) (own : List Nat) (sources : List String)
    (value : Value) : Prop where
  address : ∀ address, value.address = some address →
    LlvmBackend.Stands parts names own sources address
  direct : value.address = none → ∀ name ∈ sources, ∀ known,
    names.scopes.lookup name = some known → known.address = none

/-- A part is among given ones, and what it defines among given numbers. -/
def Owned (parts : List Part) (own : List Nat) (part : Part) : Prop :=
  part ∈ parts ∧ ∀ n ∈ part.number?, n ∈ own

/-- What names stand for has a name itself. -/
def Names.Stored (names : Names) : Prop :=
  ∀ name value address, names.scopes.lookup name = some value → value.address = some address →
    ∃ storage, address = .named storage

section Stands

variable {parts : List Part} {names : Names} {own : List Nat} {sources others : List String}
  {address other : Operand}

/-- What code allocates or computes stands for itself. -/
theorem Singled.stands_temp (singled : Singled parts) {role : Role} {i : Instr} {n : Nat}
    (owned : Owned parts own (.instr role i)) (number : i.number? = some n)
    (other : i.incoming? = none) : Stands parts names own [] (.temp n) where
  only := by
    intro storage denotes
    refine .inl ⟨n, owned.2 n number, singled.denotes_of_part owned.1 number ?_ denotes⟩
    rintro _ _ _ _ ⟨⟩
    cases other
  all := by simp

/-- A merge stands for what its sources stand for. -/
theorem Singled.stands_phi (singled : Singled parts) {role : Role} {n : Nat} {type : IrType}
    {first second : BlockId}
    (owned : Owned parts own (.instr role (.phi (.temp n) type [(address, first), (other, second)])))
    (stands : Stands parts names own sources address)
    (stands' : Stands parts names own others other) :
    Stands parts names own (sources ++ others) (.temp n) where
  only := by
    intro storage denotes
    rcases (singled.denotes_phi_iff owned.1).mp denotes with rfl | ⟨source, mem, denotes⟩
    · exact .inl ⟨n, owned.2 n rfl, rfl⟩
    · simp only [List.mem_cons, List.not_mem_nil, or_false] at mem
      rcases mem with rfl | rfl
      · exact (stands.only storage denotes).imp_right (Or.imp_right
          fun ⟨name, mem, known⟩ => ⟨name, List.mem_append_left _ mem, known⟩)
      · exact (stands'.only storage denotes).imp_right (Or.imp_right
          fun ⟨name, mem, known⟩ => ⟨name, List.mem_append_right _ mem, known⟩)
  all := by
    intro name mem value storage found at_storage
    refine (singled.denotes_phi_iff owned.1).mpr (.inr ?_)
    rcases List.mem_append.mp mem with mem | mem
    · exact ⟨_, List.mem_cons_self, stands.all name mem value storage found at_storage⟩
    · exact ⟨_, List.mem_cons_of_mem _ List.mem_cons_self,
        stands'.all name mem value storage found at_storage⟩

theorem Value.Stands.of_direct {type : TypeId} {operand : Operand} {binding : Binding} :
    Value.Stands parts names own [] ⟨type, .direct operand, binding⟩ where
  address := fun _ eq => by cases eq
  direct := by simp

theorem Value.Stands.of_addressed {type : TypeId} {binding : Binding}
    (stands : LlvmBackend.Stands parts names own sources address) :
    Value.Stands parts names own sources ⟨type, .addressed address, binding⟩ where
  address := by
    rintro _ ⟨⟩
    exact stands
  direct := fun eq => by cases eq

/-- A name stands for its storage. -/
theorem Singled.stands_name (singled : Singled parts) (stored : names.Stored) {name : String}
    {value : Value} (found : names.scopes.lookup name = some value) :
    value.Stands parts names own [name] where
  address := by
    intro address at_address
    obtain ⟨storage, rfl⟩ := stored name value address found at_address
    refine ⟨fun denoted denotes => .inr (.inr ⟨name, List.mem_singleton_self _, value, found, ?_⟩), ?_⟩
    · rw [at_address, singled.denotes_of_constant rfl denotes]
    · intro asked mem known denoted found' at_denoted
      rw [List.mem_singleton.mp mem, found] at found'
      cases found'
      cases at_address.symm.trans at_denoted
      exact .self
  direct := by
    intro none asked mem known found'
    rw [List.mem_singleton.mp mem, found] at found'
    cases found'
    exact none

end Stands

namespace Translation

section Stands

variable {env : Surroundings} {names : Names} {parts : List Part} {own : List Nat}
  {sources others : List String} {v w : Value} (singled : Singled parts)
include singled

theorem Places.stands {address : Operand} (places : Places env.types v code address w)
    (stands : v.Stands parts names own sources) (owned : code.All (Owned parts own)) :
    Stands parts names own sources address := by
  cases places with
  | addressed | cached => exact stands.address _ rfl
  | direct =>
      have fresh : Stands parts names own [] _ :=
        singled.stands_temp (Code.all_instr.mp (Code.all_seq.mp owned).1) rfl rfl
      refine ⟨fun storage denotes => ?_, fun name mem value storage found at_storage => ?_⟩
      · exact (fresh.only storage denotes).imp_right (Or.imp_right fun ⟨_, mem, _⟩ => by cases mem)
      · cases at_storage.symm.trans (stands.direct rfl name mem value found)

theorem Joins.stands {type : TypeId} {first second : Operand × Binding × BlockId}
    (joins : Joins env.types type first second code v)
    (stands : Stands parts names own sources first.1)
    (stands' : Stands parts names own others second.1) (owned : code.All (Owned parts own)) :
    v.Stands parts names own (sources ++ others) := by
  cases joins with
  | intro =>
      have merged := Code.all_instr.mp (Code.all_seq.mp owned).1
      exact .of_addressed (singled.stands_phi merged stands stands')

theorem Dispatches.stands {callee : Callee} {args : List Value}
    (dispatches : Dispatches env callee args code (some v)) (owned : code.All (Owned parts own)) :
    v.Stands parts names own [] := by
  cases dispatches with
  | result =>
      simp only [Code.all_seq, Code.all_instr] at owned
      exact .of_addressed (singled.stands_temp owned.2.1 rfl rfl)

theorem Operates.stands {op : BinaryOperator} {left right : Value}
    (operates : Operates env op left right code v) (owned : code.All (Owned parts own)) :
    v.Stands parts names own [] := by
  cases operates with
  | plain _ _ dispatches => exact dispatches.stands singled owned
  | negated _ _ _ _ negates =>
      cases negates with
      | intro => exact .of_direct

theorem Connects.stands {connective : Connective} {left right : Value} {atLeft atRight : Code}
    (connects : Connects env connective left right atLeft atRight code v)
    (owned : code.All (Owned parts own))
    (stands : atLeft.All (Owned parts own) → left.Stands parts names own sources)
    (stands' : atRight.All (Owned parts own) → right.Stands parts names own others) :
    v.Stands parts names own (if right.type = left.type then sources ++ others else []) := by
  cases connects with
  | intro _ decides =>
      cases decides with
      | alike same places releases places' _ joins =>
          simp only [Code.all_seq, Code.all_sides] at owned
          obtain ⟨atLeft, -, ⟨-, ⟨⟨atRight, placed, -⟩, -⟩, placed', -⟩, joined⟩ := owned
          rw [if_pos same]
          exact joins.stands singled (places'.stands singled (stands atLeft) placed')
            (places.stands singled (stands' atRight) placed) joined
      | flags differ =>
          rw [if_neg differ]
          exact .of_direct

theorem Chooses.stands {test onTrue onFalse : Value} {atTest atTrue atFalse : Code}
    (chooses : Chooses env test onTrue onFalse atTest atTrue atFalse code v)
    (owned : code.All (Owned parts own))
    (stands : atTrue.All (Owned parts own) → onTrue.Stands parts names own sources)
    (stands' : atFalse.All (Owned parts own) → onFalse.Stands parts names own others) :
    v.Stands parts names own (sources ++ others) := by
  cases chooses with
  | intro _ _ places places' _ joins =>
      simp only [Code.all_seq, Code.all_sides] at owned
      obtain ⟨-, ⟨-, ⟨⟨atTrue, placed⟩, -⟩, ⟨atFalse, placed'⟩, -⟩, joined⟩ := owned
      exact joins.stands singled (places.stands singled (stands atTrue) placed)
        (places'.stands singled (stands' atFalse) placed') joined

theorem Indexes.stands {container position : Value} {atContainer atPosition : Code}
    (indexes : Indexes env container position atContainer atPosition code v)
    (owned : code.All (Owned parts own)) : v.Stands parts names own [] := by
  cases indexes with
  | intro =>
      simp only [Code.all_seq, Code.all_instr] at owned
      exact .of_addressed (singled.stands_temp owned.2.2.2.2.1 rfl rfl)

/-- The value of an expression stands for what the expression tells. -/
theorem Evaluates.stands {phrase : Phrase} {vs : List Value}
    (evaluates : Evaluates env names phrase vs code) (stored : names.Stored)
    (owned : code.All (Owned parts own)) {e : Expr} (eq : phrase = .expr e) :
    ∀ v ∈ vs, v.Stands parts names own (denoted env.types env.signatures names.typing e) := by
  have alone {e : Expr} {v : Value} {code : Code}
      (ih : code.All (Owned parts own) → ∀ {e'}, Phrase.expr e = .expr e' → ∀ w ∈ [v],
        w.Stands parts names own (denoted env.types env.signatures names.typing e')) :
      code.All (Owned parts own) →
        v.Stands parts names own (denoted env.types env.signatures names.typing e) :=
    fun owned => ih owned rfl v (List.mem_singleton_self v)
  induction evaluates generalizing e with
  | @literal e type symbol eq' =>
      cases eq
      have none : denoted env.types env.signatures names.typing e = [] := by
        cases e <;> first | rfl | cases eq'
      rw [none]
      refine List.forall_mem_singleton.mpr (.of_addressed ⟨fun storage denotes => ?_, by simp⟩)
      exact .inr (.inl ⟨_, singled.denotes_of_constant rfl denotes⟩)
  | name found =>
      cases eq
      exact List.forall_mem_singleton.mpr (singled.stands_name stored found)
  | binary _ _ operates =>
      cases eq
      simp only [Code.all_seq] at owned
      exact List.forall_mem_singleton.mpr (operates.stands singled owned.2.2)
  | not _ _ negates =>
      cases eq
      cases negates with
      | intro => exact List.forall_mem_singleton.mpr .of_direct
  | and left right connects ih₁ ih₂ | or left right connects ih₁ ih₂ =>
      cases eq
      rw [denoted, hasTypes_expr.mp left.hasTypes, hasTypes_expr.mp right.hasTypes]
      exact List.forall_mem_singleton.mpr
        (connects.stands singled owned (alone ih₁) (alone ih₂))
  | ternary _ _ _ chooses _ ih₂ ih₃ =>
      cases eq
      exact List.forall_mem_singleton.mpr (chooses.stands singled owned (alone ih₂) (alone ih₃))
  | index _ _ indexes =>
      cases eq
      exact List.forall_mem_singleton.mpr (indexes.stands singled owned)
  | @call callee target args vs atArgs calling result _ _ dispatches =>
      cases eq
      intro v mem
      cases Option.mem_toList.mp mem
      exact dispatches.stands singled (Code.all_seq.mp owned).2
  | nil | cons => cases eq

end Stands

end Translation

end LlvmBackend
