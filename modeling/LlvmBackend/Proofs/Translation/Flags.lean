import LlvmBackend.Proofs.Translation.Parts
import LlvmBackend.Proofs.Translation.Traces
import LlvmBackend.Proofs.Typing.Steps

/-! # Flags of translated code

Which operands decide branches and selections, and with what types they are produced. A condition is
coerced by what its type has for that, and its flag is of the type that this is declared to give,
whatever that is.
-/

namespace LlvmBackend

open Ir Reference
open Lowering (Connective)

namespace Reference

variable (types : Registry) (signatures : SignatureTable)

/-- The type of a condition behind its coercion. -/
def truthType (type : TypeId) : TypeId :=
  if type = Registry.bool then Registry.bool else returns types signatures .boolean [type]

mutual

/-- The types of the values that an expression uses as flags: its coerced conditions, and what the
    method of `==` gives where it is negated. -/
def exprFlags (typing : Typing) : Expr → List TypeId
  | .bool _ | .int _ | .float _ | .string _ | .name _ => []
  | .binary op left right =>
    exprFlags typing left ++ (exprFlags typing right ++
      if op = .notEq then
        [returns types signatures (.method (typeOf types signatures typing left) op.method)
          [typeOf types signatures typing left, typeOf types signatures typing right]]
      else [])
  | .not operand =>
    exprFlags typing operand ++ [truthType types signatures (typeOf types signatures typing operand)]
  | .and left right | .or left right =>
    exprFlags typing left ++ (truthType types signatures (typeOf types signatures typing left) ::
      (exprFlags typing right ++
        if typeOf types signatures typing right = typeOf types signatures typing left then []
        else [truthType types signatures (typeOf types signatures typing right)]))
  | .ternary test onTrue onFalse =>
    exprFlags typing test ++ (truthType types signatures (typeOf types signatures typing test) ::
      (exprFlags typing onTrue ++ exprFlags typing onFalse))
  | .index container position => exprFlags typing container ++ exprFlags typing position
  | .call _ args => exprsFlags typing args

def exprsFlags (typing : Typing) : List Expr → List TypeId
  | [] => []
  | first :: rest => exprFlags typing first ++ exprsFlags typing rest

end

/-- The types of flags of a condition, with its own. -/
def testFlags (typing : Typing) (test : Expr) : List TypeId :=
  exprFlags types signatures typing test ++
    [truthType types signatures (typeOf types signatures typing test)]

mutual

/-- The types of the values that a statement uses as flags. -/
def stmtFlags (typing : Typing) : Stmt → List TypeId
  | .assign _ value | .effect value | .ret (some value) => exprFlags types signatures typing value
  | .ifChain arms => armsFlags typing arms
  | .whileLoop test body => testFlags types signatures typing test ++ suiteFlags typing body
  | .forLoop target source body =>
    exprFlags types signatures typing source ++ suiteFlags
      (typing.bind target (elementOf types (typeOf types signatures typing source))) body
  | .ret none => []

def suiteFlags (typing : Typing) : List Stmt → List TypeId
  | [] => []
  | first :: rest =>
    stmtFlags typing first ++
      if isReturn first then []
      else suiteFlags (typing.bindAll (stmtBindings types signatures typing first)) rest

def armsFlags (typing : Typing) : List Arm → List TypeId
  | [] => []
  | .mk none body :: _ => suiteFlags typing body
  | .mk (some test) body :: rest =>
    testFlags types signatures typing test ++ (suiteFlags typing body ++
      armsFlags (typing.bindAll (suiteBindings types signatures typing body)) rest)

end

end Reference

/-! ## Flags of code -/

/-- The operands that decide what an instruction gives, and the truth values that meet in it. -/
def Instr.flags : Instr → List Operand
  | .select _ condition _ _ => [condition]
  | .phi _ type incoming => if type = .i1 then incoming.map Prod.fst else []
  | _ => []

/-- The operands that decide where control goes. -/
def Terminator.flags : Terminator → List Operand
  | .condBr flag _ _ => [flag]
  | _ => []

def Part.flags : Part → List Operand
  | .instr _ i => i.flags
  | .ends terminator => terminator.flags
  | _ => []

namespace Code

def flags (code : Code) : List Operand := code.parts.flatMap Part.flags

variable {first second : Code}

@[simp] theorem flags_skip : flags .skip = [] := rfl

@[simp] theorem flags_seq : (seq first second).flags = first.flags ++ second.flags := by
  simp [flags, parts]

@[simp] theorem flags_instr (role : Role) (i : Instr) : (instr role i).flags = i.flags := by
  simp [flags, parts, Part.flags]

@[simp] theorem flags_read (name : String) (rebound : Bool) (value : Value) :
    (read name rebound value).flags = [] := rfl

@[simp] theorem flags_slot (name : String) (type : IrType) : (slot name type).flags = [] := rfl

@[simp] theorem flags_jump (source target : BlockId) : (jump source target).flags = [] := rfl

@[simp] theorem flags_ret (value : Option TypedOperand) : (ret value).flags = [] := rfl

@[simp] theorem flags_fork (role : Role) (flag : Operand) (onTrue onFalse : BlockId) :
    (fork role flag onTrue onFalse first second).flags =
      flag :: (first.flags ++ second.flags) := by
  simp [flags, parts, Part.flags, Terminator.flags]

@[simp] theorem flags_loop (body fin : BlockId) (flag : Operand) :
    (loop body fin first flag second).flags = first.flags ++ flag :: second.flags := by
  simp [flags, parts, Part.flags, Terminator.flags]

theorem mem_flags_sides {taken : Bool} {flag : Operand} {a b : BlockId} {x : Operand} :
    x ∈ (sides taken flag a b first second).flags ↔
      x = flag ∨ x ∈ first.flags ∨ x ∈ second.flags := by
  cases taken <;> simp [sides, or_comm]

@[simp] theorem flags_leading (code : Code) (ended : Bool) (source fin : BlockId) :
    (code.leading ended source fin).flags = code.flags := by
  cases ended <;> simp [leading]

end Code

/-- Flags are produced at given types, besides those that tell who owns a value. -/
structure Produced (types : Registry) (has : Operand → IrType → Prop) (given : List TypeId)
    (flags : List Operand) : Prop where
  fits : ∀ flag ∈ flags, TypedOperand.Fits has ⟨.i1, flag⟩ ∨
    ∃ type ∈ given, TypedOperand.Fits has ⟨⟨types.ir type⟩, flag⟩
  meets : ∀ type ∈ given, ∃ flag ∈ flags, TypedOperand.Fits has ⟨⟨types.ir type⟩, flag⟩

namespace Produced

variable {types : Registry} {has : Operand → IrType → Prop} {given given' : List TypeId}
  {flags flags' : List Operand}

theorem owning (fits : ∀ flag ∈ flags, TypedOperand.Fits has ⟨.i1, flag⟩) :
    Produced types has [] flags :=
  ⟨fun flag mem => .inl (fits flag mem), by simp⟩

theorem nil : Produced types has [] [] := .owning (by simp)

theorem single {type : TypeId} {flag : Operand}
    (fits : TypedOperand.Fits has ⟨⟨types.ir type⟩, flag⟩) : Produced types has [type] [flag] := by
  constructor <;> simp [fits]

theorem append (first : Produced types has given flags) (second : Produced types has given' flags') :
    Produced types has (given ++ given') (flags ++ flags') where
  fits := by
    intro flag mem
    rcases List.mem_append.mp mem with mem | mem
    · exact (first.fits flag mem).imp_right fun ⟨type, mem, fits⟩ =>
        ⟨type, List.mem_append_left _ mem, fits⟩
    · exact (second.fits flag mem).imp_right fun ⟨type, mem, fits⟩ =>
        ⟨type, List.mem_append_right _ mem, fits⟩
  meets := by
    intro type mem
    rcases List.mem_append.mp mem with mem | mem
    · obtain ⟨flag, mem, fits⟩ := first.meets type mem
      exact ⟨flag, List.mem_append_left _ mem, fits⟩
    · obtain ⟨flag, mem, fits⟩ := second.meets type mem
      exact ⟨flag, List.mem_append_right _ mem, fits⟩

/-- In which order flags stand, and how often, does not matter. -/
theorem congr (produced : Produced types has given flags) (same : ∀ type, type ∈ given ↔ type ∈ given')
    (same' : ∀ flag, flag ∈ flags ↔ flag ∈ flags') : Produced types has given' flags' where
  fits := fun flag mem => (produced.fits flag ((same' flag).mpr mem)).imp_right
    fun ⟨type, mem, fits⟩ => ⟨type, (same type).mp mem, fits⟩
  meets := fun type mem =>
    have ⟨flag, mem, fits⟩ := produced.meets type ((same type).mpr mem)
    ⟨flag, (same' flag).mp mem, fits⟩

end Produced

/-! ## Flags of translated code -/

/-- What stands in an operand of a value has its type, wherever the value lives. -/
structure Value.Held (types : Registry) (has : Operand → IrType → Prop) (value : Value) : Prop where
  operand : match value.storage with
    | .direct operand | .cached _ operand => TypedOperand.Fits has ⟨⟨types.ir value.type⟩, operand⟩
    | .addressed _ => True
  binding : value.binding.Fits has

theorem Value.Fits.held {types : Registry} {has : Operand → IrType → Prop} {value : Value}
    (fits : value.Fits types has) : value.Held types has := by
  refine ⟨?_, fits.binding⟩
  have storage := fits.storage
  split
  · next eq => rwa [eq] at storage
  · next eq =>
      rw [eq] at storage
      exact storage.2
  · trivial

/-- The temporaries that code defines have the types that are stated for them. -/
def States (has : Operand → IrType → Prop) : Part → Prop
  | .instr _ i => ∀ type n, i.defined? = some ⟨type, .temp n⟩ → has (.temp n) type
  | _ => True

namespace Translation

variable {env : Surroundings} {types : Registry} {has : Operand → IrType → Prop} {v w : Value}

theorem held_addressed {type : TypeId} {address : Operand} {binding : Binding}
    (fits : binding.Fits has) : Value.Held types has ⟨type, .addressed address, binding⟩ :=
  ⟨trivial, fits⟩

theorem held_borrowed (held : v.Held types has) : v.borrowed.Held types has := by
  obtain ⟨type, storage, binding⟩ := v
  unfold Value.borrowed
  split
  · refine ⟨?_, rfl⟩
    cases storage with
    | direct operand => exact held.operand
    | addressed | cached => trivial
  · exact held

theorem Loads.held (loads : Loads types v code operand w) (held : v.Held types has)
    (states : code.All (States has)) :
    TypedOperand.Fits has ⟨⟨types.ir v.type⟩, operand⟩ ∧ w.Held types has ∧ code.flags = [] := by
  cases loads with
  | direct | cached => exact ⟨held.operand, held, rfl⟩
  | @addressed type address binding n =>
      have loaded : has (.temp n) ⟨types.ir type⟩ := Code.all_instr.mp states _ n rfl
      refine ⟨loaded, ⟨?_, held.binding⟩, rfl⟩
      dsimp only
      split
      · next eq =>
          split at eq <;> cases eq
      · next eq =>
          split at eq <;> cases eq
          exact loaded
      · trivial

theorem Places.held {address : Operand} (places : Places types v code address w)
    (held : v.Held types has) : w.Held types has ∧ code.flags = [] := by
  cases places with
  | addressed => exact ⟨held, rfl⟩
  | cached => exact ⟨held, rfl⟩
  | direct => exact ⟨⟨trivial, held.binding⟩, rfl⟩

theorem Passes.held {operand : TypedOperand} (passes : Passes types v code operand w)
    (held : v.Held types has) (states : code.All (States has)) :
    w.Held types has ∧ code.flags = [] := by
  cases passes with
  | byValue _ loads => exact (loads.held held states).2
  | byAddress _ places => exact places.held held

theorem PassesAll.held {vs ws : List Value} {operands : List TypedOperand}
    (passes : PassesAll types vs code operands ws) (held : ∀ v ∈ vs, v.Held types has)
    (states : code.All (States has)) : (∀ w ∈ ws, w.Held types has) ∧ code.flags = [] := by
  induction passes with
  | nil => exact ⟨by simp, rfl⟩
  | cons first _ ih =>
      obtain ⟨here, others⟩ := List.forall_mem_cons.mp held
      obtain ⟨atFirst, atRest⟩ := Code.all_seq.mp states
      obtain ⟨held, none⟩ := first.held here atFirst
      obtain ⟨held', none'⟩ := ih others atRest
      exact ⟨List.forall_mem_cons.mpr ⟨held, held'⟩, by simp [none, none']⟩

theorem Releases.produces (releases : Releases types v code) (held : v.Held types has) :
    Produced types has [] code.flags := by
  cases releases with
  | nothing | always => exact .nil
  | @guarded address entry flag _ _ _ _ eq =>
      have owns : TypedOperand.Fits has ⟨.i1, v.binding.flag⟩ := held.binding
      rw [eq, Binding.flag] at owns
      exact .owning (by simpa [teardownCall, Instr.flags] using owns)

theorem ReleasesAll.produces {vs : List Value} (releases : ReleasesAll types vs code)
    (held : ∀ v ∈ vs, v.Held types has) : Produced types has [] code.flags := by
  induction releases with
  | nil => exact .nil
  | cons first _ ih =>
      obtain ⟨here, others⟩ := List.forall_mem_cons.mp held
      rw [Code.flags_seq]
      exact (first.produces here).append (ih others)

theorem Owners.produces {type : TypeId} {first second : Binding × BlockId} {binding : Binding}
    (owners : Owners types type first second code binding) (fits : first.1.Fits has)
    (fits' : second.1.Fits has) (states : code.All (States has)) :
    binding.Fits has ∧ Produced types has [] code.flags := by
  cases owners with
  | temporary | stable => exact ⟨rfl, .nil⟩
  | @flag n =>
      refine ⟨Code.all_instr.mp states _ n rfl, .owning ?_⟩
      simpa [Instr.flags] using ⟨fits, fits'⟩

theorem ptr_ne_i1 (type : IrType) : type.ptr ≠ .i1 := by
  intro eq
  have := congrArg (fun type : IrType => type.text.toList.getLast?) eq
  simp [IrType.ptr, IrType.i1] at this

theorem Joins.produces {type : TypeId} {first second : Operand × Binding × BlockId}
    (joins : Joins types type first second code v) (fits : first.2.1.Fits has)
    (fits' : second.2.1.Fits has) (states : code.All (States has)) :
    v.Held types has ∧ Produced types has [] code.flags := by
  cases joins with
  | intro _ owners =>
      obtain ⟨owner, produced⟩ := owners.produces fits fits' (Code.all_seq.mp states).2
      exact ⟨held_addressed owner, by simpa [Instr.flags, ptr_ne_i1] using produced⟩

/-! ### Calls and coercions -/

theorem Dispatches.produces {callee : Callee} {args : List Value} {result : Option Value}
    (dispatches : Dispatches env callee args code result) (held : ∀ v ∈ args, v.Held env.types has)
    (states : code.All (States has)) :
    (∀ w ∈ result, w.Held env.types has) ∧ Produced env.types has [] code.flags := by
  cases dispatches with
  | void _ passes _ releases =>
      simp only [Code.all_seq] at states
      obtain ⟨held, none⟩ := passes.held held states.1
      exact ⟨by simp, by simpa [none, Instr.flags] using releases.produces held⟩
  | result _ passes _ releases =>
      simp only [Code.all_seq] at states
      obtain ⟨held, none⟩ := passes.held held states.1
      refine ⟨?_, by simpa [none, Instr.flags] using releases.produces held⟩
      rintro _ ⟨⟩
      exact held_addressed rfl

/-- A coerced value is of the type that its coercion is declared to give. -/
theorem Coerces.produces (coerces : Coerces env v code w) (held : v.Held env.types has)
    (states : code.All (States has)) :
    w.type = truthType env.types env.signatures v.type ∧ w.Held env.types has ∧
      Produced env.types has [] code.flags := by
  cases coerces with
  | already isBool => exact ⟨by rw [truthType, if_pos isBool, isBool], held, .nil⟩
  | calls notBool dispatches =>
      obtain ⟨held, produced⟩ := dispatches.produces (by simpa using held) states
      refine ⟨?_, held w rfl, produced⟩
      rw [truthType, if_neg notBool]
      exact dispatches.traces.2.symm

theorem Tests.produces {flag : Operand} (tests : Tests env v code flag) (held : v.Held env.types has)
    (states : code.All (States has)) :
    TypedOperand.Fits has ⟨⟨env.types.ir (truthType env.types env.signatures v.type)⟩, flag⟩ ∧
      Produced env.types has [] code.flags := by
  cases tests with
  | intro coerces loads =>
      obtain ⟨atCoercion, atLoad⟩ := Code.all_seq.mp states
      obtain ⟨type, held, produced⟩ := coerces.produces held atCoercion
      obtain ⟨fits, _, none⟩ := loads.held held atLoad
      exact ⟨type ▸ fits, by simpa [none] using produced⟩

/-- The negation of a value uses it as a flag, whatever its type is. -/
theorem Negates.produces (truth : (⟨env.types.ir Registry.bool⟩ : IrType) = .i1)
    (negates : Negates env v code w) (held : v.Held env.types has) (states : code.All (States has)) :
    w.Held env.types has ∧ Produced env.types has [v.type] code.flags := by
  cases negates with
  | @intro loading flag v' n loads =>
      obtain ⟨atLoad, atSelect⟩ := Code.all_seq.mp states
      obtain ⟨fits, _, none⟩ := loads.held held atLoad
      refine ⟨⟨?_, rfl⟩, by simpa [none, Instr.flags] using Produced.single fits⟩
      have defined : has (.temp n) .i1 := Code.all_instr.mp atSelect _ n rfl
      rw [← truth] at defined
      exact defined

/-! ### Forms of expressions -/

/-- Code makes a value, and its flags are produced at given types. -/
def Flagged (env : Surroundings) (has : Operand → IrType → Prop) (given : List TypeId) (code : Code)
    (value : Value) : Prop :=
  code.All (States has) → value.Held env.types has ∧ Produced env.types has given code.flags

section Forms

variable (truth : (⟨env.types.ir Registry.bool⟩ : IrType) = .i1)
include truth

theorem Operates.produces {op : BinaryOperator} {left right : Value}
    (operates : Operates env op left right code v) (held : left.Held env.types has)
    (held' : right.Held env.types has) (states : code.All (States has)) :
    v.Held env.types has ∧ Produced env.types has
      (if op = .notEq then [returns env.types env.signatures (.method left.type op.method)
        [left.type, right.type]] else []) code.flags := by
  cases operates with
  | plain _ _ dispatches other =>
      obtain ⟨held, produced⟩ := dispatches.produces (by simpa using ⟨held, held'⟩) states
      exact ⟨held v rfl, by rwa [if_neg other]⟩
  | negated _ _ dispatches eq negates =>
      obtain ⟨atCall, atNegation⟩ := Code.all_seq.mp states
      obtain ⟨held, produced⟩ := dispatches.produces (by simpa using ⟨held, held'⟩) atCall
      obtain ⟨result, produced'⟩ := negates.produces truth (held _ rfl) atNegation
      have type : returns env.types env.signatures (.method left.type op.method)
          [left.type, right.type] = _ := dispatches.traces.2
      refine ⟨result, ?_⟩
      rw [if_pos eq, type, Code.flags_seq]
      exact produced.append produced'

omit truth in
theorem Decides.states_right {connective : Connective} {left right : Value} {flag : Operand}
    {atRight : Code} (decides : Decides env connective left right flag atRight code v)
    (states : code.All (States has)) : atRight.All (States has) := by
  cases decides with
  | alike =>
      simp only [Code.all_seq, Code.all_sides] at states
      exact states.1.2.1.1.1
  | flags =>
      simp only [Code.all_seq, Code.all_sides] at states
      exact states.1.1.2.1.1.1

/-- A connective decides by its left operand and, if their types differ, gives its right one as a
truth value. -/
theorem Decides.produces {connective : Connective} {left right : Value} {flag : Operand}
    {atRight : Code} {type : TypeId} {given : List TypeId}
    (decides : Decides env connective left right flag atRight code v)
    (fits : TypedOperand.Fits has ⟨⟨env.types.ir type⟩, flag⟩) (held : left.Held env.types has)
    (held' : right.Held env.types has) (produced : Produced env.types has given atRight.flags)
    (states : code.All (States has)) :
    v.Held env.types has ∧ Produced env.types has (type :: (given ++
      if right.type = left.type then [] else [truthType env.types env.signatures right.type]))
      code.flags := by
  cases decides with
  | alike same placesRight releases placesLeft _ joins =>
      simp only [Code.all_seq, Code.all_sides] at states
      obtain ⟨_, none⟩ := placesRight.held held'
      obtain ⟨_, none'⟩ := placesLeft.held held
      obtain ⟨result, merged⟩ := joins.produces held.binding held'.binding states.2
      refine ⟨result, (((Produced.single fits).append produced).append
        ((releases.produces held).append merged)).congr (by simp [same]) fun x => ?_⟩
      simp only [Code.flags_seq, Code.mem_flags_sides, none, none', Code.flags_jump, List.mem_append,
        List.mem_singleton, List.not_mem_nil]
      grind
  | flags differ tests releases _ =>
      simp only [Code.all_seq, Code.all_sides] at states
      obtain ⟨fits', tested⟩ := tests.produces held' states.1.1.2.1.1.2
      have defined := Code.all_instr.mp states.1.2 _ _ rfl
      rw [← truth] at defined
      refine ⟨⟨defined, rfl⟩, ((((Produced.single fits).append produced).append
        ((Produced.single fits').append tested)).append (releases.produces held)).congr
        (by simp [differ]) fun x => ?_⟩
      simp only [Code.flags_seq, Code.mem_flags_sides, Code.flags_jump, Code.flags_skip,
        Code.flags_instr, Instr.flags, if_true, List.map_cons, List.map_nil, List.mem_append,
        List.mem_cons, List.not_mem_nil]
      grind

theorem Connects.flagged {connective : Connective} {left right : Value} {atLeft atRight : Code}
    {given given' : List TypeId}
    (connects : Connects env connective left right atLeft atRight code v)
    (first : Flagged env has given atLeft left) (second : Flagged env has given' atRight right) :
    Flagged env has (given ++ (truthType env.types env.signatures left.type :: (given' ++
      if right.type = left.type then [] else [truthType env.types env.signatures right.type])))
      code v := by
  intro states
  cases connects with
  | intro tests decides =>
      simp only [Code.all_seq] at states
      obtain ⟨held, produced⟩ := first states.1
      obtain ⟨held', produced'⟩ := second (decides.states_right states.2.2)
      obtain ⟨fits, tested⟩ := tests.produces (held_borrowed held) states.2.1
      rw [borrowed_type] at fits
      obtain ⟨result, decided⟩ := decides.produces truth fits held held' produced' states.2.2
      exact ⟨result, by simpa using produced.append (tested.append decided)⟩

omit truth in
theorem Chooses.flagged {test onTrue onFalse : Value} {atTest atTrue atFalse : Code}
    {given given₁ given₂ : List TypeId}
    (chooses : Chooses env test onTrue onFalse atTest atTrue atFalse code v)
    (first : Flagged env has given atTest test) (second : Flagged env has given₁ atTrue onTrue)
    (third : Flagged env has given₂ atFalse onFalse) :
    Flagged env has (given ++ (truthType env.types env.signatures test.type :: (given₁ ++ given₂)))
      code v := by
  intro states
  cases chooses with
  | intro _ tests placesTrue placesFalse _ joins =>
      simp only [Code.all_seq, Code.all_sides] at states
      obtain ⟨held, produced⟩ := first states.1.1
      obtain ⟨held₁, produced₁⟩ := second states.2.1.2.1.1.1
      obtain ⟨held₂, produced₂⟩ := third states.2.1.2.2.1.1
      obtain ⟨fits, tested⟩ := tests.produces held states.1.2
      obtain ⟨_, none⟩ := placesTrue.held held₁
      obtain ⟨_, none'⟩ := placesFalse.held held₂
      obtain ⟨result, merged⟩ := joins.produces held₁.binding held₂.binding states.2.2
      refine ⟨result, ((produced.append tested).append (((Produced.single fits).append
        (produced₁.append produced₂)).append merged)).congr (by simp) fun x => ?_⟩
      simp only [Code.flags_seq, Code.mem_flags_sides, none, none', Code.flags_jump, List.mem_append,
        List.mem_singleton, List.not_mem_nil]
      grind

omit truth in
theorem Indexes.flagged {container position : Value} {atContainer atPosition : Code}
    {given given' : List TypeId}
    (indexes : Indexes env container position atContainer atPosition code v)
    (first : Flagged env has given atContainer container)
    (second : Flagged env has given' atPosition position) :
    Flagged env has (given ++ given') code v := by
  intro states
  cases indexes with
  | intro _ _ _ loads loads' releases =>
      simp only [Code.all_seq] at states
      obtain ⟨held, produced⟩ := first states.1
      obtain ⟨held', produced'⟩ := second states.2.1
      obtain ⟨_, _, none⟩ := loads.held held states.2.2.1
      obtain ⟨_, held', none'⟩ := loads'.held held' states.2.2.2.1
      refine ⟨held_addressed rfl, ?_⟩
      simpa [none, none', Instr.flags] using
        produced.append (produced'.append (releases.produces held'))

end Forms

/-! ### Expressions -/

/-- The types of the flags of an expression by the reference semantics. -/
def Phrase.flags (env : Surroundings) (typing : Typing) : Phrase → List TypeId
  | .expr e => exprFlags env.types env.signatures typing e
  | .exprs es => exprsFlags env.types env.signatures typing es

/-- What stands in operands of the values of names has their types. -/
def HeldNames (env : Surroundings) (has : Operand → IrType → Prop) (names : Names) : Prop :=
  ∀ name value, names.scopes.lookup name = some value → value.Held env.types has

variable {names names' : Names} (truth : (⟨env.types.ir Registry.bool⟩ : IrType) = .i1)
include truth

/-- The code of expressions produces its flags at the types that the reference semantics gives. -/
theorem Evaluates.produces {phrase : Phrase} {vs : List Value}
    (evaluates : Evaluates env names phrase vs code) (held : HeldNames env has names)
    (states : code.All (States has)) :
    (∀ v ∈ vs, v.Held env.types has) ∧
      Produced env.types has (phrase.flags env names.typing) code.flags := by
  have flagged {e : Expr} {v : Value} {code : Code}
      (ih : code.All (States has) → (∀ w ∈ [v], w.Held env.types has) ∧
        Produced env.types has ((Phrase.expr e).flags env names.typing) code.flags) :
      Flagged env has (exprFlags env.types env.signatures names.typing e) code v := fun states =>
    ⟨(ih states).1 v (List.mem_singleton_self v), (ih states).2⟩
  induction evaluates with
  | @literal e type symbol eq =>
      refine ⟨List.forall_mem_singleton.mpr (held_addressed rfl), ?_⟩
      cases e <;> first | exact .nil | cases eq
  | name found => exact ⟨List.forall_mem_singleton.mpr (held _ _ found), .nil⟩
  | binary left right operates ih₁ ih₂ =>
      simp only [Code.all_seq] at states
      obtain ⟨held₁, produced₁⟩ := flagged ih₁ states.1
      obtain ⟨held₂, produced₂⟩ := flagged ih₂ states.2.1
      obtain ⟨result, produced⟩ := operates.produces truth held₁ held₂ states.2.2
      refine ⟨List.forall_mem_singleton.mpr result, ?_⟩
      rw [Phrase.flags, exprFlags, hasTypes_expr.mp left.hasTypes, hasTypes_expr.mp right.hasTypes,
        Code.flags_seq, Code.flags_seq]
      exact produced₁.append (produced₂.append produced)
  | not operand coerces negates ih =>
      simp only [Code.all_seq] at states
      obtain ⟨held, produced⟩ := flagged ih states.1
      obtain ⟨type, held, coerced⟩ := coerces.produces held states.2.1
      obtain ⟨result, negated⟩ := negates.produces truth held states.2.2
      refine ⟨List.forall_mem_singleton.mpr result, ?_⟩
      rw [Phrase.flags, exprFlags, hasTypes_expr.mp operand.hasTypes, ← type, Code.flags_seq,
        Code.flags_seq]
      exact produced.append (coerced.append negated)
  | and left right connects ih₁ ih₂ | or left right connects ih₁ ih₂ =>
      obtain ⟨result, produced⟩ := connects.flagged truth (flagged ih₁) (flagged ih₂) states
      refine ⟨List.forall_mem_singleton.mpr result, ?_⟩
      rwa [Phrase.flags, exprFlags, hasTypes_expr.mp left.hasTypes, hasTypes_expr.mp right.hasTypes]
  | ternary test _ _ chooses ih₁ ih₂ ih₃ =>
      obtain ⟨result, produced⟩ := chooses.flagged (flagged ih₁) (flagged ih₂) (flagged ih₃) states
      refine ⟨List.forall_mem_singleton.mpr result, ?_⟩
      rwa [Phrase.flags, exprFlags, hasTypes_expr.mp test.hasTypes]
  | index _ _ indexes ih₁ ih₂ =>
      obtain ⟨result, produced⟩ := indexes.flagged (flagged ih₁) (flagged ih₂) states
      exact ⟨List.forall_mem_singleton.mpr result, produced⟩
  | call _ _ dispatches ih =>
      simp only [Code.all_seq] at states
      obtain ⟨held, produced⟩ := ih states.1
      obtain ⟨result, called⟩ := dispatches.produces held states.2
      have all := produced.append called
      rw [List.append_nil, ← Code.flags_seq] at all
      exact ⟨by simpa using result, all⟩
  | nil => exact ⟨by simp, .nil⟩
  | cons _ _ ih₁ ih₂ =>
      simp only [Code.all_seq] at states
      obtain ⟨held₁, produced₁⟩ := flagged ih₁ states.1
      obtain ⟨held₂, produced₂⟩ := ih₂ states.2
      refine ⟨List.forall_mem_cons.mpr ⟨held₁, held₂⟩, ?_⟩
      rw [Code.flags_seq]
      exact produced₁.append produced₂

/-- A condition produces its flag, and those inside it. -/
theorem produced_test {test : Expr} {atTest testing : Code} {flag : Operand}
    (evaluates : Evaluates env names (.expr test) [v] atTest) (tests : Tests env v testing flag)
    (held : HeldNames env has names) (states : (Code.seq atTest testing).All (States has)) :
    Produced env.types has (testFlags env.types env.signatures names.typing test)
      (flag :: (Code.seq atTest testing).flags) := by
  obtain ⟨atTest, atTesting⟩ := Code.all_seq.mp states
  obtain ⟨held, produced⟩ := evaluates.produces truth held atTest
  obtain ⟨fits, tested⟩ := tests.produces (List.forall_mem_singleton.mp held) atTesting
  rw [testFlags, hasTypes_expr.mp evaluates.hasTypes]
  refine ((produced.append tested).append (.single fits)).congr (by simp [Phrase.flags]) fun x => ?_
  simp only [Code.flags_seq, List.mem_append, List.mem_cons, List.not_mem_nil]
  grind

/-! ### Statements -/

omit truth in
theorem SlotFor.heldNames {name : String} {type : TypeId} {slot : Operand}
    (slotFor : SlotFor types names name type slot code names') (held : HeldNames env has names) :
    HeldNames env has (names'.define name (.stable type slot)) ∧ code.flags = [] := by
  have same : names'.scopes = names.scopes ∧ code.flags = [] := by
    cases slotFor <;> exact ⟨rfl, rfl⟩
  refine ⟨fun asked value found => ?_, same.2⟩
  rw [Names.define, Scopes.lookup_define, same.1] at found
  split at found
  · cases found
    exact held_addressed rfl
  · exact held asked value found

theorem Leaves.produces {value : Option Expr} (leaves : Leaves env names value code)
    (held : HeldNames env has names) (states : code.All (States has)) :
    Produced env.types has (stmtFlags env.types env.signatures names.typing (.ret value))
      code.flags := by
  cases leaves with
  | bare => exact .nil
  | dropped _ evaluates =>
      rw [Code.flags_seq, Code.flags_ret, List.append_nil]
      exact (evaluates.produces truth held (Code.all_seq.mp states).1).2
  | result _ _ evaluates loads =>
      simp only [Code.all_seq] at states
      obtain ⟨held, produced⟩ := evaluates.produces truth held states.1
      obtain ⟨_, _, none⟩ := loads.held (List.forall_mem_singleton.mp held) states.2.1
      simpa [none, Instr.flags, stmtFlags, Phrase.flags] using produced

/-- The types of the flags of work by the reference semantics. -/
def Work.flags (env : Surroundings) (typing : Typing) : Work → List TypeId
  | .stmt statement => stmtFlags env.types env.signatures typing statement
  | .suite statements => suiteFlags env.types env.signatures typing statements
  | .arms _ conditions => armsFlags env.types env.signatures typing conditions

/-- The code of statements produces its flags at the types that the reference semantics gives. -/
theorem Lowers.produces {work : Work} {ended : Bool}
    (lowers : Lowers env work names names' ended code) (held : HeldNames env has names)
    (states : code.All (States has)) :
    HeldNames env has names' ∧
      Produced env.types has (work.flags env names.typing) code.flags := by
  have ends {fin : BlockId} : States has (.ends (.br fin)) := trivial
  induction lowers with
  | assign evaluates loads slotFor =>
      simp only [Code.all_seq] at states
      obtain ⟨values, produced⟩ := evaluates.produces truth held states.1
      obtain ⟨_, _, none⟩ := loads.held (List.forall_mem_singleton.mp values) states.2.1
      obtain ⟨held, none'⟩ := slotFor.heldNames held
      refine ⟨held, ?_⟩
      simpa [none, none', Instr.flags, Work.flags, stmtFlags, Phrase.flags] using produced
  | noArms => exact ⟨held, .nil⟩
  | ifChain _ ih => exact ih held states
  | whileLoop evaluates tests _ ih =>
      simp only [Code.all_seq, Code.all_loop, Code.all_leading ends] at states
      have tested := produced_test truth evaluates tests held (Code.all_seq.mpr states.2.2.1)
      obtain ⟨held, produced⟩ := ih held states.2.2.2
      refine ⟨held, (tested.append produced).congr (fun _ => Iff.rfl) fun x => ?_⟩
      simp only [Code.flags_seq, Code.flags_jump, Code.flags_loop, Code.flags_leading,
        List.mem_append, List.mem_cons, List.not_mem_nil]
      grind
  | forLoop evaluates found resolved places slotFor _ _ releases ih =>
      simp only [Code.all_seq, Code.all_loop, Code.all_leading ends] at states
      obtain ⟨values, produced⟩ := evaluates.produces truth held states.1
      obtain ⟨iterator, none⟩ := places.held (List.forall_mem_singleton.mp values)
      have typing := slotFor.traces.2
      obtain ⟨held, none'⟩ := slotFor.heldNames held
      obtain ⟨held, turns⟩ := ih held states.2.2.2.1.2.2.2
      have more := Code.all_instr.mp states.2.2.2.1.2.2.1 _ _ rfl
      have asked : Produced env.types has [] [Operand.temp _] := .owning (List.forall_mem_singleton.mpr more)
      refine ⟨held, ?_⟩
      rw [Names.typing_define, typing, Value.stable, ← elementOf_eq found resolved,
        ← hasTypes_expr.mp evaluates.hasTypes] at turns
      refine ((produced.append turns).append (asked.append (releases.produces iterator))).congr
        (by simp [Work.flags, Phrase.flags, stmtFlags]) fun x => ?_
      simp only [Code.flags_seq, none, none', Code.flags_jump, Code.flags_loop, Code.flags_leading,
        Code.flags_instr, Instr.flags, List.mem_append, List.mem_cons, List.not_mem_nil]
      grind
  | ret leaves => exact ⟨held, leaves.produces truth held states⟩
  | effect evaluates => exact ⟨held, (evaluates.produces truth held states).2⟩
  | nil => exact ⟨held, .nil⟩
  | ends first ih =>
      obtain ⟨held, produced⟩ := ih held states
      refine ⟨held, ?_⟩
      rwa [Work.flags, suiteFlags, ← first.isReturn, if_pos rfl, List.append_nil]
  | goesOn first _ ih₁ ih₂ =>
      simp only [Code.all_seq] at states
      obtain ⟨held, produced⟩ := ih₁ held states.1
      obtain ⟨held, produced'⟩ := ih₂ held states.2
      refine ⟨held, ?_⟩
      rw [first.typing] at produced'
      rw [Work.flags, suiteFlags, ← first.isReturn, if_neg (by simp), Code.flags_seq]
      exact produced.append produced'
  | otherwise _ ih =>
      rw [Code.all_leading ends] at states
      rw [Code.flags_leading]
      exact ih held states
  | lastArm evaluates tests _ ih =>
      simp only [Code.all_seq, Code.all_fork, Code.all_leading ends] at states
      have tested := produced_test truth evaluates tests held (Code.all_seq.mpr states.1)
      obtain ⟨held, produced⟩ := ih held states.2.2.1
      refine ⟨held, (tested.append produced).congr (by simp [Work.flags, armsFlags]) fun x => ?_⟩
      simp only [Code.flags_seq, Code.flags_fork, Code.flags_leading, Code.flags_skip,
        List.mem_append, List.mem_cons, List.not_mem_nil]
      grind
  | arm evaluates tests first _ ih₁ ih₂ =>
      simp only [Code.all_seq, Code.all_fork, Code.all_leading ends] at states
      have tested := produced_test truth evaluates tests held (Code.all_seq.mpr states.1)
      obtain ⟨held, produced⟩ := ih₁ held states.2.2.1
      obtain ⟨held, produced'⟩ := ih₂ held states.2.2.2
      rw [first.typing] at produced'
      refine ⟨held, (tested.append (produced.append produced')).congr (fun _ => Iff.rfl) fun x => ?_⟩
      simp only [Code.flags_seq, Code.flags_fork, Code.flags_leading, List.mem_append,
        List.mem_cons]
      grind

end Translation

end LlvmBackend
