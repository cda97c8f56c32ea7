import LlvmBackend.Lowering.Stmt
import LlvmBackend.Proofs.Code
import Mathlib.Data.Option.Basic

/-! # Translation

Which structured code stands for which tree. The relations follow the forms of the tree and say
nothing of how blocks come about: a block goes by a place, and any places do that lay the code out.
Numbers of temporaries are free in the same way.
-/

namespace LlvmBackend

open Ir
open Lowering (teardown next resultName success Connective)

/-- What the lowering of a function knows about names. -/
structure Names where
  scopes : Scopes Value
  /-- The slots of variables. -/
  slots : List Operand
  /-- The names of storage that are taken. -/
  used : List String

namespace Names

variable (names : Names)

/-- The slot that a name already has in the scope in use, if it fits the type. -/
def reusable? (name : String) (type : TypeId) : Option Operand := do
  let known ← names.scopes.lookupLocal name
  let slot ← known.address
  guard (known.type = type ∧ slot ∈ names.slots)
  return slot

/-- The name of storage that a new slot gets. -/
def freeName (name : String) : String := { used := names.used : Supply }.freeName name

/-- Takes a name of storage for a new slot. -/
def slotted (storage : String) : Names :=
  { names with slots := .named storage :: names.slots, used := storage :: names.used }

/-- Binds a name in the scope in use. -/
def define (name : String) (value : Value) : Names :=
  { names with scopes := names.scopes.define name value }

end Names

namespace Translation

section Values

variable (types : Registry)

/-- A value becomes an operand. What is loaded from owned storage is kept. -/
inductive Loads : Value → Code → Operand → Value → Prop where
  | direct :
      type ≠ Registry.void →
      Loads ⟨type, .direct operand, binding⟩ .skip operand ⟨type, .direct operand, binding⟩
  | cached :
      type ≠ Registry.void →
      Loads ⟨type, .cached address loaded, binding⟩ .skip loaded ⟨type, .cached address loaded, binding⟩
  | addressed :
      type ≠ Registry.void →
      Loads ⟨type, .addressed address, binding⟩
        (.instr .plain (.load (.temp n) ⟨types.ir type⟩ address)) (.temp n)
        ⟨type, if binding.owns then .cached address (.temp n) else .addressed address, binding⟩

/-- A value has an address or gets one. -/
inductive Places : Value → Code → Operand → Value → Prop where
  | addressed :
      type ≠ Registry.void →
      Places ⟨type, .addressed address, binding⟩ .skip address ⟨type, .addressed address, binding⟩
  | cached :
      type ≠ Registry.void →
      Places ⟨type, .cached address loaded, binding⟩ .skip address
        ⟨type, .cached address loaded, binding⟩
  | direct :
      type ≠ Registry.void →
      Places ⟨type, .direct operand, binding⟩
        (.seq (.instr .plain (.alloca (.temp n) ⟨types.ir type⟩))
          (.instr .plain (.store ⟨⟨types.ir type⟩, operand⟩ (.temp n))))
        (.temp n) ⟨type, .addressed (.temp n), binding⟩

variable {types} in
theorem Loads.type_eq (loads : Loads types v code operand w) : w.type = v.type := by
  cases loads <;> rfl

variable {types} in
theorem Places.type_eq (places : Places types v code address w) : w.type = v.type := by
  cases places <;> rfl

variable {types} in
theorem Places.binding_eq (places : Places types v code address w) : w.binding = v.binding := by
  cases places <;> rfl

/-- A value becomes an argument, as the convention of its type wants it. -/
inductive Passes : Value → Code → TypedOperand → Value → Prop where
  | byValue :
      types.isByValue v.type →
      Loads types v code operand w →
      Passes v code ⟨⟨types.ir v.type⟩, operand⟩ w
  | byAddress :
      ¬ types.isByValue v.type →
      Places types v code address w →
      Passes v code ⟨.ptr ⟨types.ir v.type⟩, address⟩ w

/-- Values become arguments, from left to right. -/
inductive PassesAll : List Value → Code → List TypedOperand → List Value → Prop where
  | nil : PassesAll [] .skip [] []
  | cons :
      Passes types v code operand w →
      PassesAll vs code' operands ws →
      PassesAll (v :: vs) (.seq code code') (operand :: operands) (w :: ws)

/-- The call that tears down what stands at an address. -/
def teardownCall (type : TypeId) (entry : MethodEntry) (address : Operand) : Instr :=
  .call none .void entry.symbol [⟨.ptr ⟨types.ir type⟩, address⟩]

/-- A value that is not needed any more is torn down as far as its consumer owns it. -/
inductive Releases (v : Value) : Code → Prop where
  | nothing :
      (∀ address entry, v.address = some address → types.method v.type teardown = some entry →
        v.binding.owns = false) →
      Releases v .skip
  | always :
      v.address = some address →
      types.method v.type teardown = some entry →
      v.binding = .temporary →
      Releases v (.instr .release (teardownCall types v.type entry address))
  | guarded :
      v.address = some address →
      types.method v.type teardown = some entry →
      v.binding = .conditional flag →
      Releases v (.fork .release (.temp flag) owned fin
        (.seq (.instr .release (teardownCall types v.type entry address)) (.jump owned fin)) .skip)

/-- Values are torn down in their order. -/
inductive ReleasesAll : List Value → Code → Prop where
  | nil : ReleasesAll [] .skip
  | cons : Releases types v code → ReleasesAll vs code' → ReleasesAll (v :: vs) (.seq code code')

/-- Who owns a value that comes from one of two blocks. -/
inductive Owners (type : TypeId) (first second : Binding × BlockId) : Code → Binding → Prop where
  | temporary :
      first.1 = .temporary →
      second.1 = .temporary →
      Owners type first second .skip .temporary
  | stable :
      (types.method type teardown).isNone ∨ first.1.owns = false ∧ second.1.owns = false →
      Owners type first second .skip .stable
  | flag :
      (types.method type teardown).isSome →
      ¬ (first.1 = .temporary ∧ second.1 = .temporary) →
      first.1.owns ∨ second.1.owns →
      Owners type first second
        (.instr .plain (.phi (.temp n) .i1 [(first.1.flag, first.2), (second.1.flag, second.2)]))
        (.conditional n)

/-- Two values of one type that stand at addresses become one, behind their blocks. -/
inductive Joins (type : TypeId) (first second : Operand × Binding × BlockId) :
    Code → Value → Prop where
  | intro :
      type ≠ Registry.void →
      Owners types type first.2 second.2 code binding →
      Joins type first second
        (.seq (.instr .plain (.phi (.temp n) (.ptr ⟨types.ir type⟩)
          [(first.1, first.2.2), (second.1, second.2.2)])) code)
        ⟨type, .addressed (.temp n), binding⟩

/-- An operand has the type that a method names, if it names one. -/
def Accepts (entry : MethodEntry) (found : TypeId) : Prop :=
  ∀ argument ∈ entry.argument, types.resolve argument = .ok found

end Values

section Calls

variable (env : Surroundings)

/-- Something is called, and the arguments that nobody else owns are torn down. -/
inductive Dispatches (callee : Callee) (args : List Value) : Code → Option Value → Prop where
  | void :
      callee.bind env.types env.signatures (args.map (·.type)) = .ok target →
      PassesAll env.types args passing operands args' →
      target.returns = Registry.void →
      ReleasesAll env.types args' releasing →
      Dispatches callee args
        (.seq passing (.seq (.instr .plain (.call none .void target.symbol operands)) releasing)) none
  | result :
      callee.bind env.types env.signatures (args.map (·.type)) = .ok target →
      PassesAll env.types args passing operands args' →
      target.returns ≠ Registry.void →
      ReleasesAll env.types args' releasing →
      Dispatches callee args
        (.seq passing (.seq (.instr .plain (.alloca (.temp n) ⟨env.types.ir target.returns⟩))
          (.seq (.instr .plain (.call none .void target.symbol
            (operands ++ [⟨.ptr ⟨env.types.ir target.returns⟩, .temp n⟩]))) releasing)))
        (some (.temporary target.returns (.temp n)))

/-- A value becomes a truth value. -/
inductive Coerces (v : Value) : Code → Value → Prop where
  | already : v.type = Registry.bool → Coerces v .skip v
  | calls :
      v.type ≠ Registry.bool →
      Dispatches env .boolean [v] code (some w) →
      Coerces v code w

/-- A value becomes the flag of a branch. -/
inductive Tests (v : Value) : Code → Operand → Prop where
  | intro :
      Coerces env v coercing w →
      Loads env.types w loading flag w' →
      Tests v (.seq coercing loading) flag

/-- The opposite of a truth value. -/
inductive Negates (v : Value) : Code → Value → Prop where
  | intro :
      Loads env.types v loading flag v' →
      Negates v
        (.seq loading
          (.instr .plain (.select (.temp n) flag ⟨.i1, .bool false⟩ ⟨.i1, .bool true⟩)))
        (.direct Registry.bool (.temp n))

/-- An operator calls a method of its left operand. -/
inductive Operates (op : BinaryOperator) (left right : Value) : Code → Value → Prop where
  | plain :
      env.types.method left.type op.method = some entry →
      Accepts env.types entry right.type →
      Dispatches env (.method left.type op.method) [left, right] code (some v) →
      op ≠ .notEq →
      Operates op left right code v
  | negated :
      env.types.method left.type op.method = some entry →
      Accepts env.types entry right.type →
      Dispatches env (.method left.type op.method) [left, right] calling (some v) →
      op = .notEq →
      Negates env v negating w →
      Operates op left right (.seq calling negating) w

/-! ## Forms with several ways

The code of the parts is given. -/

/-- A connective from its branch on, from the code of its right operand. -/
inductive Decides (connective : Connective) (left right : Value) (flag : Operand)
    (atRight : Code) : Code → Value → Prop where
  | alike :
      right.type = left.type →
      Places env.types right placing rightAddress right' →
      Releases env.types left releasing →
      Places env.types left placing' leftAddress left' →
      rightEnd ≠ skip →
      Joins env.types left.type (leftAddress, left.binding, skip)
        (rightAddress, right.binding, rightEnd) merging v →
      Decides connective left right flag atRight
        (.seq
          (.sides (connective = .and) flag rightStart skip
            (.seq (.seq atRight (.seq placing releasing)) (.jump rightEnd join))
            (.seq placing' (.jump skip join)))
          merging) v
  | flags :
      right.type ≠ left.type →
      Tests env right testing flag' →
      Releases env.types left releasing →
      rightEnd ≠ skip →
      Decides connective left right flag atRight
        (.seq
          (.seq
            (.sides (connective = .and) flag rightStart skip
              (.seq (.seq atRight testing) (.jump rightEnd join))
              (.seq .skip (.jump skip join)))
            (.instr .plain (.phi (.temp n) .i1 [(flag, skip), (flag', rightEnd)])))
          releasing) (.direct Registry.bool (.temp n))

/-- A connective, from the code of its operands. -/
inductive Connects (connective : Connective) (left right : Value) (atLeft atRight : Code) :
    Code → Value → Prop where
  | intro :
      Tests env left.borrowed testing flag →
      Decides env connective left right flag atRight deciding v →
      Connects connective left right atLeft atRight (.seq atLeft (.seq testing deciding)) v

/-- One of two values by a condition, from the code of its parts. -/
inductive Chooses (test onTrue onFalse : Value) (atTest atTrue atFalse : Code) :
    Code → Value → Prop where
  | intro :
      onFalse.type = onTrue.type →
      Tests env test testing flag →
      Places env.types onTrue placing trueAddress onTrue' →
      Places env.types onFalse placing' falseAddress onFalse' →
      trueEnd ≠ falseEnd →
      Joins env.types onTrue.type (trueAddress, onTrue.binding, trueEnd)
        (falseAddress, onFalse.binding, falseEnd) merging v →
      Chooses test onTrue onFalse atTest atTrue atFalse
        (.seq (.seq atTest testing) (.seq
          (.sides true flag trueStart falseStart
            (.seq (.seq atTrue placing) (.jump trueEnd fin))
            (.seq (.seq atFalse placing') (.jump falseEnd fin)))
          merging)) v

/-- An element of a container, from the code of its parts. -/
inductive Indexes (container position : Value) (atContainer atPosition : Code) :
    Code → Value → Prop where
  | intro :
      env.types.element container.type = some element →
      position.type = Registry.int →
      element ≠ Registry.void →
      Loads env.types container loading base container' →
      Loads env.types position loading' offset position' →
      Releases env.types position' releasing →
      Indexes container position atContainer atPosition
        (.seq atContainer (.seq atPosition (.seq loading (.seq loading'
          (.seq (.instr .plain (.elementPtr (.temp n) ⟨env.types.ir element⟩ base
            [⟨⟨env.types.ir position.type⟩, offset⟩])) releasing)))))
        (.stable element (.temp n))

end Calls

/-! ## Expressions -/

/-- The type of a literal. -/
def literalType? : Expr → Option TypeId
  | .bool _ => some Registry.bool
  | .int _ => some Registry.int
  | .float _ => some Registry.float
  | .string _ => some Registry.string
  | _ => none

/-- An expression or the arguments of a call. -/
inductive Phrase where
  | expr (expr : Expr)
  | exprs (exprs : List Expr)

/-- Expressions are evaluated. A call of a function without result has no value. -/
inductive Evaluates (env : Surroundings) (names : Names) : Phrase → List Value → Code → Prop where
  | literal :
      literalType? e = some type →
      Evaluates env names (.expr e) [.constant type (.symbol symbol)] .skip
  | name :
      names.scopes.lookup name = some v →
      Evaluates env names (.expr (.name name)) [v]
        (.read name (names.scopes.lookupLocal name).isSome v)
  | binary :
      Evaluates env names (.expr left) [l] atLeft →
      Evaluates env names (.expr right) [r] atRight →
      Operates env op l r operating v →
      Evaluates env names (.expr (.binary op left right)) [v]
        (.seq atLeft (.seq atRight operating))
  | not :
      Evaluates env names (.expr operand) [v] atOperand →
      Coerces env v coercing w →
      Negates env w negating result →
      Evaluates env names (.expr (.not operand)) [result]
        (.seq atOperand (.seq coercing negating))
  | and :
      Evaluates env names (.expr left) [l] atLeft →
      Evaluates env names (.expr right) [r] atRight →
      Connects env .and l r atLeft atRight code v →
      Evaluates env names (.expr (.and left right)) [v] code
  | or :
      Evaluates env names (.expr left) [l] atLeft →
      Evaluates env names (.expr right) [r] atRight →
      Connects env .or l r atLeft atRight code v →
      Evaluates env names (.expr (.or left right)) [v] code
  | ternary :
      Evaluates env names (.expr test) [t] atTest →
      Evaluates env names (.expr onTrue) [a] atTrue →
      Evaluates env names (.expr onFalse) [b] atFalse →
      Chooses env t a b atTest atTrue atFalse code v →
      Evaluates env names (.expr (.ternary test onTrue onFalse)) [v] code
  | index :
      Evaluates env names (.expr container) [c] atContainer →
      Evaluates env names (.expr position) [p] atPosition →
      Indexes env c p atContainer atPosition code v →
      Evaluates env names (.expr (.index container position)) [v] code
  | call :
      Callee.resolve callee env.signatures = .ok target →
      Evaluates env names (.exprs args) vs atArgs →
      Dispatches env target vs calling result →
      Evaluates env names (.expr (.call callee args)) result.toList (.seq atArgs calling)
  | nil : Evaluates env names (.exprs []) [] .skip
  | cons :
      Evaluates env names (.expr first) [v] code →
      Evaluates env names (.exprs rest) vs code' →
      Evaluates env names (.exprs (first :: rest)) (v :: vs) (.seq code code')

/-! ## Statements -/

/-- A variable has a slot that fits, or gets one. -/
inductive SlotFor (types : Registry) (names : Names) (name : String) (type : TypeId) :
    Operand → Code → Names → Prop where
  | reused : names.reusable? name type = some slot → SlotFor types names name type slot .skip names
  | new :
      names.reusable? name type = none →
      type ≠ Registry.void →
      SlotFor types names name type (.named (names.freeName name))
        (.slot (names.freeName name) ⟨types.ir type⟩) (names.slotted (names.freeName name))

/-- Control leaves a function. -/
inductive Leaves (env : Surroundings) (names : Names) : Option Expr → Code → Prop where
  /-- There is no result to pass on. -/
  | bare :
      env.outcome = .status ∧ value = some success ∨
        env.outcome = .result Registry.void ∧ value = none →
      Leaves env names none (.ret value)
  /-- What is returned is dropped. -/
  | dropped :
      env.outcome = .status ∧ value = some success ∨
        env.outcome = .result Registry.void ∧ value = none →
      Evaluates env names (.expr e) vs code →
      Leaves env names (some e) (.seq code (.ret value))
  | result :
      env.outcome = .result v.type →
      v.type ≠ Registry.void →
      Evaluates env names (.expr e) [v] code →
      Loads env.types v loading operand v' →
      Leaves env names (some e)
        (.seq code (.seq loading (.seq
          (.instr .result (.store ⟨⟨env.types.ir v.type⟩, operand⟩ (.named resultName)))
          (.ret none))))

/-- A statement, statements up to the first that leaves the function, or the arms of a chain of
    conditions before the block behind the chain. -/
inductive Work where
  | stmt (stmt : Stmt)
  | suite (stmts : List Stmt)
  | arms (fin : BlockId) (arms : List Arm)

/-- Statements are lowered; names are bound in the order of lowering. The truth value says whether
    control left the function by a statement that returns. -/
inductive Lowers (env : Surroundings) : Work → Names → Names → Bool → Code → Prop where
  | assign :
      Evaluates env names (.expr e) [v] code →
      Loads env.types v loading operand v' →
      SlotFor env.types names target v.type slot slotting names' →
      Lowers env (.stmt (.assign target e)) names (names'.define target (.stable v.type slot)) false
        (.seq code (.seq loading (.seq slotting
          (.instr (.write target v.type) (.store ⟨⟨env.types.ir v.type⟩, operand⟩ slot)))))
  | noArms : Lowers env (.stmt (.ifChain [])) names names false (.seq .skip (.jump source fin))
  | ifChain :
      Lowers env (.arms fin (first :: rest)) names names' ended code →
      Lowers env (.stmt (.ifChain (first :: rest))) names names' false code
  | whileLoop :
      Evaluates env names (.expr test) [v] atTest →
      Tests env v testing flag →
      Lowers env (.suite stmts) names names' ended turn →
      Lowers env (.stmt (.whileLoop test stmts)) names names' false
        (.seq (.jump source head) (.loop body fin (.seq atTest testing) flag
          (turn.leading ended turnEnd head)))
  | forLoop :
      Evaluates env names (.expr source) [v] atSource →
      env.types.method v.type next = some entry →
      env.types.resolve entry.returns = .ok element →
      Places env.types v placing iterator v' →
      SlotFor env.types names target element slot slotting names' →
      element ≠ Registry.void →
      Lowers env (.suite stmts) (names'.define target (.stable element slot)) names'' ended turn →
      Releases env.types v' releasing →
      Lowers env (.stmt (.forLoop target source stmts)) names names'' false
        (.seq atSource (.seq placing (.seq slotting (.seq
          (.seq (.jump source' head) (.loop body fin
            (.instr (.write target element) (.call (some (.temp n)) .i1 entry.symbol
              [⟨.ptr ⟨env.types.ir v.type⟩, iterator⟩, ⟨.ptr ⟨env.types.ir element⟩, slot⟩]))
            (.temp n) (turn.leading ended turnEnd head)))
          releasing))))
  | ret : Leaves env names e code → Lowers env (.stmt (.ret e)) names names true code
  | effect :
      Evaluates env names (.expr e) vs code →
      Lowers env (.stmt (.effect e)) names names false code
  | nil : Lowers env (.suite []) names names false .skip
  | ends :
      Lowers env (.stmt first) names names' true code →
      Lowers env (.suite (first :: rest)) names names' true code
  | goesOn :
      Lowers env (.stmt first) names names' false code →
      Lowers env (.suite rest) names' names'' ended code' →
      Lowers env (.suite (first :: rest)) names names'' ended (.seq code code')
  | otherwise :
      Lowers env (.suite stmts) names names' ended code →
      Lowers env (.arms fin (.mk none stmts :: rest)) names names' ended
        (code.leading ended bodyEnd fin)
  | lastArm :
      Evaluates env names (.expr test) [v] atTest →
      Tests env v testing flag →
      Lowers env (.suite stmts) names names' ended code →
      Lowers env (.arms fin [.mk (some test) stmts]) names names' ended
        (.seq (.seq atTest testing)
          (.fork .plain flag body fin (code.leading ended bodyEnd fin) .skip))
  | arm :
      Evaluates env names (.expr test) [v] atTest →
      Tests env v testing flag →
      Lowers env (.suite stmts) names names' ended code →
      Lowers env (.arms fin (another :: rest)) names' names'' ended' code' →
      Lowers env (.arms fin (.mk (some test) stmts :: another :: rest)) names names'' ended'
        (.seq (.seq atTest testing)
          (.fork .plain flag body otherwise (code.leading ended bodyEnd fin) code'))

end Translation

end LlvmBackend
