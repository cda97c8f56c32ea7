import LlvmBackend.Datum.Reading
import LlvmBackend.Registry

/-!
# Reading type descriptors

A type is described by a record, in a JSON value or in a TOML document. The two differ in how they
hold an alternative and in what they make of a list that is too long.
-/

namespace LlvmBackend

namespace Convention

/-- The conventions by their names. -/
def named : List (String × Convention) := [("by-value", .byValue), ("by-address", .byAddress)]

/-- A convention in a JSON value: its name, alone or over `null`. -/
def readJson : Datum → Reading Convention
  | .string name => Datum.chooseVariant named name
  | .record [(name, payload)] => do
    let convention ← within (.field name) (Datum.chooseVariant named name)
    match payload with
    | .null => return convention
    | payload => within (.field name) (payload.refuse "unit")
  | datum@(.record _) => .error (.here (.invalidValue datum "map with a single key"))
  | datum => datum.refuse "string or map"

/-- What a TOML document calls a value in the place of a table. -/
def tomlTypeName : Datum → String
  | .string _ => "string"
  | .integer _ => "integer"
  | .float _ => "float"
  | .bool _ => "boolean"
  | .list _ => "array"
  | _ => "datetime"

/-- Checks that there is nothing under the name of a convention. -/
def readTomlPayload (datum : Datum) : Reading Unit :=
  match datum with
  | .record [] | .list [] => .ok ()
  | .list _ => .error (.here (.invalidForm "expected empty array"))
  | .record _ => .error (.here (.invalidForm "expected empty table"))
  | datum => .error (.here (.invalidForm s!"expected table, found {tomlTypeName datum}"))

/-- A convention in a TOML document: its name, alone or over an empty table. -/
def readToml (datum : Datum) : Reading Convention :=
  match datum with
  | .string name => Datum.chooseVariant named name
  | .record [] => .error (.here (.invalidForm "wanted exactly 1 element, found 0 elements"))
  | .record [(name, payload)] => do
    let convention ← within (.field name) (Datum.chooseVariant named name)
    within (.field name) (readTomlPayload payload)
    return convention
  | .record _ =>
    .error (.here (.invalidForm "wanted exactly 1 element, more than 1 element"))
  | _ => .error (.here (.invalidForm "wanted string or table"))

end Convention

namespace TypeDescriptor

/-- What depends on the kind of the document. -/
structure Dialect where
  surplus : Surplus
  readConvention : Datum → Reading Convention

namespace Dialect

def json : Dialect := ⟨Surplus.tooMany, Convention.readJson⟩

def toml : Dialect := ⟨Surplus.ignored, Convention.readToml⟩

end Dialect

variable (dialect : Dialect)

def methodFields : List (Field MethodEntry) :=
  [⟨"symbol", true, fun datum entry => return { entry with symbol := ← datum.asString }⟩,
   ⟨"returns", true, fun datum entry => return { entry with returns := ← datum.asString }⟩,
   ⟨"argument", false, fun datum entry =>
      return { entry with argument := ← Datum.asOptional Datum.asString datum }⟩]

def readMethod : Datum → Reading MethodEntry :=
  Field.readStructure "struct MethodEntry" dialect.surplus methodFields ⟨"", "", none⟩

/-- Reads methods in the order of the text. -/
def readMethodMembers : List (String × Datum) → Reading (List (String × MethodEntry))
  | [] => return []
  | (name, datum) :: rest => do
    let entry ← within (.field name) (readMethod dialect datum)
    return (name, entry) :: (← readMethodMembers rest)

def readMethods (datum : Datum) : Reading (NameMap MethodEntry) :=
  match datum.members? with
  | some members => NameMap.ofList <$> readMethodMembers dialect members
  | none => datum.refuse "a map"

def fields : List (Field TypeDescriptor) :=
  [⟨"name", true, fun datum type => return { type with name := ← datum.asString }⟩,
   ⟨"ir", true, fun datum type => return { type with ir := ← datum.asString }⟩,
   ⟨"convention", false, fun datum type =>
      return { type with convention := ← dialect.readConvention datum }⟩,
   ⟨"layout", false, fun datum type =>
      return { type with layout := ← Datum.asOptional Datum.asString datum }⟩,
   ⟨"element", false, fun datum type =>
      return { type with element := ← Datum.asOptional Datum.asString datum }⟩,
   ⟨"methods", false, fun datum type =>
      return { type with methods := ← readMethods dialect datum }⟩]

/-- Reads a type descriptor. -/
def read : Datum → Reading TypeDescriptor :=
  Field.readStructure "struct TypeDescriptor" dialect.surplus (fields dialect)
    { name := "", ir := "" }

end TypeDescriptor

end LlvmBackend
