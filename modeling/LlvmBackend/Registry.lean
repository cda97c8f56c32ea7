import LlvmBackend.NameMap

/-!
# The registry of types

What the backend knows about each source-level type, found by name or by the place of the type's
first definition. The five types that literals and conditions have stand at fixed places. Main
statement: a definition keeps all names in their places and adds its own at the end if it is new
(`names_place`).
-/

namespace LlvmBackend

/-- How values of a type cross a call boundary. -/
inductive Convention where
  /-- As an operand. -/
  | byValue
  /-- As a pointer to storage. -/
  | byAddress
  deriving DecidableEq, Repr

/-- A method of a type: the symbol to call, the type it produces and the type of its second operand,
    if it has one. -/
structure MethodEntry where
  symbol : String
  returns : String
  argument : Option String := none
  deriving DecidableEq, Repr

/-- A source-level type. -/
structure TypeDescriptor where
  name : String
  /-- The representation in the emitted code. -/
  ir : String
  convention : Convention := .byValue
  /-- The body of the structure that represents the type. -/
  layout : Option String := none
  /-- The name of the type of elements, for an indexable container. -/
  element : Option String := none
  methods : NameMap MethodEntry := .empty

namespace TypeDescriptor

def isByValue (descriptor : TypeDescriptor) : Bool := descriptor.convention = .byValue

def withLayout (descriptor : TypeDescriptor) (layout : String) : TypeDescriptor :=
  { descriptor with layout := some layout }

def withElement (descriptor : TypeDescriptor) (element : String) : TypeDescriptor :=
  { descriptor with element := some element }

/-- Adds a method whose symbol is the type's name, a point and the method's name. -/
def withMethod (descriptor : TypeDescriptor) (name returns : String)
    (argument : Option String := none) : TypeDescriptor :=
  let entry := ⟨descriptor.name ++ "." ++ name, returns, argument⟩
  { descriptor with methods := descriptor.methods.insert name entry }

end TypeDescriptor

/-- The place of a type in its registry. -/
structure TypeId where
  index : Nat
  deriving DecidableEq, Repr

/-- The names of the types that every registry starts with. -/
def coreNames : List String := ["void", "bool", "int", "float", "str"]

/-- Types in the order of their first definitions, each name once. -/
structure Registry where
  descriptors : List TypeDescriptor
  nodup : (descriptors.map TypeDescriptor.name).Nodup
  core : coreNames <+: descriptors.map TypeDescriptor.name

namespace Registry

/-! ## Types by name and by place -/

/-- The place of the type of a name. -/
def lookup (registry : Registry) (name : String) : Option TypeId :=
  TypeId.mk <$> registry.descriptors.findIdx? (·.name = name)

/-- The type at a place; an id of another registry describes nothing. -/
def describe (registry : Registry) (id : TypeId) : TypeDescriptor :=
  registry.descriptors[id.index]?.getD { name := "", ir := "" }

def name (registry : Registry) (id : TypeId) : String := (registry.describe id).name

def ir (registry : Registry) (id : TypeId) : String := (registry.describe id).ir

def isByValue (registry : Registry) (id : TypeId) : Bool := (registry.describe id).isByValue

/-- A method of a type. -/
def method (registry : Registry) (id : TypeId) (name : String) : Option MethodEntry :=
  (registry.describe id).methods.get? name

/-- The type of the elements of an indexable type. -/
def element (registry : Registry) (id : TypeId) : Option TypeId :=
  (registry.describe id).element.bind registry.lookup

def size (registry : Registry) : Nat := registry.descriptors.length

def isEmpty (registry : Registry) : Bool := registry.descriptors.isEmpty

/-- The places of the types in their order. -/
def ids (registry : Registry) : List TypeId := (List.range registry.size).map TypeId.mk

/-! ## Types that code generation knows

Every registry starts with them, in this order. -/

/-- The type without values. -/
def void : TypeId := ⟨0⟩

/-- The type of truth values. -/
def bool : TypeId := ⟨1⟩

/-- The type of integers. -/
def int : TypeId := ⟨2⟩

/-- The type of floating-point numbers. -/
def float : TypeId := ⟨3⟩

/-- The type of texts. -/
def string : TypeId := ⟨4⟩

/-! ## Definitions -/

/-- Puts a type in the place of the one with its name, or at the end. -/
def place (descriptor : TypeDescriptor) : List TypeDescriptor → List TypeDescriptor
  | [] => [descriptor]
  | other :: rest =>
    if other.name = descriptor.name then descriptor :: rest else other :: place descriptor rest

theorem place_of_mem {descriptor : TypeDescriptor} {types : List TypeDescriptor}
    (h : descriptor.name ∈ types.map TypeDescriptor.name) :
    (place descriptor types).map TypeDescriptor.name = types.map TypeDescriptor.name := by
  induction types with
  | nil => simp at h
  | cons other rest ih =>
    simp only [place]
    split
    · next eq => simp [eq]
    · next ne =>
      have : descriptor.name ∈ rest.map TypeDescriptor.name := by
        simpa [Ne.symm ne] using h
      simp [ih this]

theorem place_of_not_mem {descriptor : TypeDescriptor} {types : List TypeDescriptor}
    (h : descriptor.name ∉ types.map TypeDescriptor.name) :
    place descriptor types = types ++ [descriptor] := by
  induction types with
  | nil => rfl
  | cons other rest ih =>
    simp only [List.map_cons, List.mem_cons, not_or] at h
    simp [place, Ne.symm h.1, ih h.2]

/-- A definition keeps the names, and adds its own at the end if it is new. -/
theorem names_place (descriptor : TypeDescriptor) (types : List TypeDescriptor) :
    (place descriptor types).map TypeDescriptor.name =
      if descriptor.name ∈ types.map TypeDescriptor.name then types.map TypeDescriptor.name
      else types.map TypeDescriptor.name ++ [descriptor.name] := by
  split
  · next h => exact place_of_mem h
  · next h => simp [place_of_not_mem h]

/-- Defines a type, over the one that had its name. -/
def define (registry : Registry) (descriptor : TypeDescriptor) : Registry where
  descriptors := place descriptor registry.descriptors
  nodup := by
    rw [names_place]
    split
    · exact registry.nodup
    · next new =>
      refine List.nodup_append.mpr ⟨registry.nodup, by simp, fun a mem b last => ?_⟩
      rw [List.mem_singleton.mp last]
      exact fun eq => new (eq ▸ mem)
  core := by
    rw [names_place]
    split
    · exact registry.core
    · exact registry.core.trans (List.prefix_append _ _)

/-- Defines types one after the other. -/
def defineAll (registry : Registry) (descriptors : List TypeDescriptor) : Registry :=
  descriptors.foldl define registry

/-! ## References between types -/

/-- The names of the types that a type refers to, in the order in which they are checked. -/
def references (descriptor : TypeDescriptor) : List String :=
  descriptor.element.toList ++
    descriptor.methods.values.flatMap fun entry => entry.returns :: entry.argument.toList

/-- The first name that some type refers to and no type has. -/
def unknownReference (registry : Registry) : Option String :=
  (registry.descriptors.flatMap references).find? fun name => (registry.lookup name).isNone

end Registry

end LlvmBackend
