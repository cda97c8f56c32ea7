import LlvmBackend.Callee
import LlvmBackend.Proofs.Traces
import LlvmBackend.Registry.Builtin

/-! # Reference semantics

What can be observed of a tree, told from the tree and the types of names alone. Operands and
arguments come from left to right before what works on them, conditions that are no truth values are
coerced before the branch, and a name has the type that it was bound to last in the order of the
text.
-/

namespace LlvmBackend.Reference

/-- What a text tells about a name. -/
structure Meaning where
  /-- The type that the name was bound to last; void if it was not bound. -/
  type : TypeId := Registry.void
  /-- The body bound the name, not what comes before the body. -/
  rebound : Bool := false
  deriving DecidableEq, Repr

/-- Names and the types they are bound to, in the order of the text. -/
abbrev Bindings := List (String × TypeId)

/-- What is known of names at a place of a text. -/
abbrev Typing := String → Meaning

namespace Typing

def bind (typing : Typing) (name : String) (type : TypeId) : Typing :=
  fun asked => if asked = name then ⟨type, true⟩ else typing asked

def bindAll (typing : Typing) (bindings : Bindings) : Typing :=
  bindings.foldl (fun typing binding => typing.bind binding.1 binding.2) typing

/-- What is known of names before a body. -/
def opened (opening : Bindings) : Typing :=
  fun name => { type := (bindAll (fun _ => {}) opening name).type }

@[simp] theorem bindAll_nil (typing : Typing) : typing.bindAll [] = typing := rfl

@[simp] theorem bindAll_append (typing : Typing) (first second : Bindings) :
    typing.bindAll (first ++ second) = (typing.bindAll first).bindAll second :=
  List.foldl_append ..

end Typing

section

variable (types : Registry) (signatures : SignatureTable)

/-! ## Types -/

/-- What a call calls, for arguments of given types. -/
def target? (callee : Callee) (args : List TypeId) : Option Target :=
  (callee.bind types signatures args).toOption

/-- The type of the result of a call. -/
def returns (callee : Callee) (args : List TypeId) : TypeId :=
  ((target? types signatures callee args).map Target.returns).getD Registry.void

/-- The type of what an iterator gives. -/
def elementOf (source : TypeId) : TypeId :=
  ((types.method source "__next__").bind fun entry => (types.resolve entry.returns).toOption).getD
    Registry.void

mutual

/-- The type of an expression; one without value counts as void. -/
def typeOf (typing : Typing) : Expr → TypeId
  | .bool _ => Registry.bool
  | .int _ => Registry.int
  | .float _ => Registry.float
  | .string _ => Registry.string
  | .name name => (typing name).type
  | .binary op left right =>
    if op = .notEq then Registry.bool
    else returns types signatures (.method (typeOf typing left) op.method)
      [typeOf typing left, typeOf typing right]
  | .not _ => Registry.bool
  | .and left right | .or left right =>
    if typeOf typing right = typeOf typing left then typeOf typing left else Registry.bool
  | .ternary _ onTrue _ => typeOf typing onTrue
  | .index container _ => (types.element (typeOf typing container)).getD Registry.void
  | .call callee args =>
    match Callee.resolve callee signatures with
    | .ok callee => returns types signatures callee (typesOf typing args)
    | .error _ => Registry.void

/-- The types of arguments. -/
def typesOf (typing : Typing) : List Expr → List TypeId
  | [] => []
  | first :: rest => typeOf typing first :: typesOf typing rest

end

/-! ## Expressions -/

/-- A call is observed by the symbol that it calls. -/
def calls (callee : Callee) (args : List TypeId) : List Event :=
  (target? types signatures callee args).toList.map fun target => .call target.symbol

/-- What is not a truth value is coerced to one by a call. -/
def coercion (type : TypeId) : List Event :=
  if type = Registry.bool then [] else calls types signatures .boolean [type]

mutual

/-- The traces of an expression. -/
def exprTraces (typing : Typing) : Expr → Traces
  | .bool _ | .int _ | .float _ | .string _ => .one []
  | .name name => .one [.read name (typing name).rebound]
  | .binary op left right =>
    (exprTraces typing left).seq ((exprTraces typing right).seq
      (.one (calls types signatures (.method (typeOf types signatures typing left) op.method)
        [typeOf types signatures typing left, typeOf types signatures typing right])))
  | .not operand =>
    (exprTraces typing operand).seq
      (.one (coercion types signatures (typeOf types signatures typing operand)))
  | .and left right =>
    ((exprTraces typing left).seq
      (.one (coercion types signatures (typeOf types signatures typing left)))).seq
      (.branch ((exprTraces typing right).seq (.one
        (if typeOf types signatures typing right = typeOf types signatures typing left then []
          else coercion types signatures (typeOf types signatures typing right)))) (.one []))
  | .or left right =>
    ((exprTraces typing left).seq
      (.one (coercion types signatures (typeOf types signatures typing left)))).seq
      (.branch (.one []) ((exprTraces typing right).seq (.one
        (if typeOf types signatures typing right = typeOf types signatures typing left then []
          else coercion types signatures (typeOf types signatures typing right)))))
  | .ternary test onTrue onFalse =>
    ((exprTraces typing test).seq
      (.one (coercion types signatures (typeOf types signatures typing test)))).seq
      (.branch (exprTraces typing onTrue) (exprTraces typing onFalse))
  | .index container position =>
    (exprTraces typing container).seq (exprTraces typing position)
  | .call callee args =>
    (exprsTraces typing args).seq (.one
      (match Callee.resolve callee signatures with
      | .ok callee => calls types signatures callee (typesOf types signatures typing args)
      | .error _ => []))

/-- The traces of arguments. -/
def exprsTraces (typing : Typing) : List Expr → Traces
  | [] => .one []
  | first :: rest => (exprTraces typing first).seq (exprsTraces typing rest)

end

/-- The traces of a condition up to its branch. -/
def testTraces (typing : Typing) (test : Expr) : Traces :=
  (exprTraces types signatures typing test).seq
    (.one (coercion types signatures (typeOf types signatures typing test)))

/-! ## Statements -/

/-- A statement after which nothing is lowered. -/
def isReturn : Stmt → Bool
  | .ret _ => true
  | _ => false

mutual

/-- What a statement binds. -/
def stmtBindings (typing : Typing) : Stmt → Bindings
  | .assign target value => [(target, typeOf types signatures typing value)]
  | .ifChain arms => armsBindings typing arms
  | .whileLoop _ body => suiteBindings typing body
  | .forLoop target source body =>
    let element := elementOf types (typeOf types signatures typing source)
    (target, element) :: suiteBindings (typing.bind target element) body
  | .ret _ | .effect _ => []

/-- What statements bind up to the first that returns. -/
def suiteBindings (typing : Typing) : List Stmt → Bindings
  | [] => []
  | first :: rest =>
    stmtBindings typing first ++
      if isReturn first then []
      else suiteBindings (typing.bindAll (stmtBindings typing first)) rest

/-- What arms bind up to the first without a condition. -/
def armsBindings (typing : Typing) : List Arm → Bindings
  | [] => []
  | .mk none body :: _ => suiteBindings typing body
  | .mk (some _) body :: rest =>
    suiteBindings typing body ++ armsBindings (typing.bindAll (suiteBindings typing body)) rest

end

mutual

/-- The traces of a statement. -/
def stmtTraces (typing : Typing) : Stmt → Traces
  | .assign target value => (exprTraces types signatures typing value).seq (.one [.write target])
  | .ifChain arms => armsTraces typing arms
  | .whileLoop test body => .Loop (testTraces types signatures typing test) (suiteTraces typing body)
  | .forLoop target source body =>
    (exprTraces types signatures typing source).seq (.Loop
      (.one ((types.method (typeOf types signatures typing source) "__next__").toList.map
        (fun entry => .call entry.symbol) ++ [.write target]))
      (suiteTraces
        (typing.bind target (elementOf types (typeOf types signatures typing source))) body))
  | .ret none => .leaves
  | .ret (some value) => (exprTraces types signatures typing value).seq .leaves
  | .effect value => exprTraces types signatures typing value

/-- The traces of statements one after the other. -/
def suiteTraces (typing : Typing) : List Stmt → Traces
  | [] => .one []
  | first :: rest =>
    (stmtTraces typing first).seq
      (suiteTraces (typing.bindAll (stmtBindings types signatures typing first)) rest)

/-- The traces of arms that are tried in their order. -/
def armsTraces (typing : Typing) : List Arm → Traces
  | [] => .one []
  | .mk none body :: _ => suiteTraces typing body
  | .mk (some test) body :: rest =>
    (testTraces types signatures typing test).seq (.branch (suiteTraces typing body)
      (armsTraces (typing.bindAll (suiteBindings types signatures typing body)) rest))

end

/-! ## Functions -/

/-- The type that a name of a type stands for. -/
def typeNamed (name : String) : TypeId := (types.resolve name).toOption.getD Registry.void

/-- What is bound before the body of a function: its parameters, or what the entry of a module is
    given. -/
def opening (entry : String) (source : Tree.Function) : Bindings :=
  if source.name = entry then
    [("name", Registry.string), ("args", typeNamed types argumentsType.name)]
  else source.params.map fun param => (param.name, typeNamed types param.type)

/-- Each name is only ever bound to values of one type. -/
def SingleTyped (opening : Bindings) (body : List Stmt) : Prop :=
  ∃ typeOf : String → TypeId,
    ∀ binding ∈ opening ++ suiteBindings types signatures (.opened opening) body,
      binding.2 = typeOf binding.1

/-- The traces of control through a function. The entry of a module decodes the arguments of the
    process first. -/
def functionTraces (entry : String) (source : Tree.Function) (trace : List Event) : Prop :=
  ∃ events left,
    suiteTraces types signatures (.opened (opening types entry source)) source.body events left ∧
    trace = (if source.name = entry then [.call "argv"] else []) ++ events.filter Event.isControl

end

end LlvmBackend.Reference
