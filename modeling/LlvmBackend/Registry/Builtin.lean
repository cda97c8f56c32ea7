import LlvmBackend.Registry

/-!
# The builtin types

The types that every module can use.
-/

namespace LlvmBackend

/-- A number type: arithmetic and comparison with its own kind, a truth value and a text. -/
def numericType (name ir : String) : TypeDescriptor :=
  ["__add__", "__sub__", "__mul__", "__div__"].foldl
    (fun descriptor operator => descriptor.withMethod operator name (some name))
    { name, ir : TypeDescriptor }
  |>.withMethod "__eq__" "bool" (some name)
  |>.withMethod "__lt__" "bool" (some name)
  |>.withMethod "__bool__" "bool"
  |>.withMethod "__str__" "str"

def voidType : TypeDescriptor := { name := "void", ir := "void" }

def boolType : TypeDescriptor :=
  { name := "bool", ir := "i1" : TypeDescriptor }
  |>.withMethod "__eq__" "bool" (some "bool")
  |>.withMethod "__str__" "str"

/-- The only builtin type whose values are torn down. -/
def stringType : TypeDescriptor :=
  { name := "str", ir := "%str", convention := .byAddress : TypeDescriptor }
  |>.withLayout "\x7b i1, i64, i8* \x7d"
  |>.withMethod "__add__" "str" (some "str")
  |>.withMethod "__bool__" "bool"
  |>.withMethod "__del__" "void"
  |>.withMethod "__eq__" "bool" (some "str")
  |>.withMethod "__lt__" "bool" (some "str")
  |>.withMethod "__str__" "str"

/-- The type of what `range` gives. -/
def rangeType : TypeDescriptor :=
  { name := "intiter", ir := "%intiter", convention := .byAddress : TypeDescriptor }
  |>.withLayout "\x7b i64, i64, i64 \x7d"
  |>.withMethod "__next__" "int"

/-- The type of the arguments of a process. -/
def argumentsType : TypeDescriptor :=
  { name := "array[str]", ir := "%str*" : TypeDescriptor }
  |>.withElement "str"

/-- The registry of the builtin types. -/
def Registry.builtin : Registry where
  descriptors :=
    [voidType, boolType, numericType "int" "i64", numericType "float" "double", stringType,
      rangeType, argumentsType]
  nodup := by decide
  core := by decide

end LlvmBackend
