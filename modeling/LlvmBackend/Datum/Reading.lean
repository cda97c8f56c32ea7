import LlvmBackend.Datum

/-!
# Reading typed data

Typed values are read out of a datum in the order in which its text gives them: a value of a wrong
type is reported where it is met, and a missing field at the end of its record. A structure can be
written as a record of its fields or as a list of them in their order.
-/

namespace LlvmBackend

/-- Why a datum does not have the wanted form. -/
inductive Mismatch where
  | missingField (name : String)
  | duplicateField (name : String)
  | unknownVariant (name : String) (known : List String)
  | invalidType (found : Datum) (wanted : String)
  | invalidValue (found : Datum) (wanted : String)
  | invalidLength (length : Nat) (wanted : String)
  /-- An enumeration is written in a form it cannot have. -/
  | invalidForm (explanation : String)

/-- A step from a datum to one of its parts. -/
inductive DatumStep where
  | field (name : String)
  | item (index : Nat)
  deriving DecidableEq, Repr

/-- What stops reading: the text breaks, or the part at a place has not the wanted form. -/
inductive ReadError where
  | broken (breakage : Breakage)
  | mismatch (place : List DatumStep) (why : Mismatch)

/-- The outcome of reading a typed value. -/
abbrev Reading := Except ReadError

/-- The names of an enumeration as a message lists them. -/
def alternatives : List String → String
  | [a, b] => s!"`{a}` or `{b}`"
  | [a] => s!"`{a}`"
  | names => "one of " ++ ", ".intercalate (names.map fun name => s!"`{name}`")

/-- The message about a mismatch; `layout` writes the numbers in it. -/
def Mismatch.message (layout : DecimalLayout) : Mismatch → String
  | .missingField name => s!"missing field `{name}`"
  | .duplicateField name => s!"duplicate field `{name}`"
  | .unknownVariant name known => s!"unknown variant `{name}`, expected " ++ alternatives known
  | .invalidType found wanted => s!"invalid type: {found.described layout}, expected {wanted}"
  | .invalidValue found wanted => s!"invalid value: {found.described layout}, expected {wanted}"
  | .invalidLength length wanted => s!"invalid length {length}, expected {wanted}"
  | .invalidForm explanation => explanation

namespace ReadError

/-- A mismatch at the place of the datum that is read. -/
def here (why : Mismatch) : ReadError := .mismatch [] why

/-- The same error as seen from one step further out. -/
def under (step : DatumStep) : ReadError → ReadError
  | .broken breakage => .broken breakage
  | .mismatch place why => .mismatch (step :: place) why

end ReadError

/-- Reads a part of a datum and places its errors there. -/
def within {α : Type} (step : DatumStep) (part : Reading α) : Reading α :=
  part.mapError (ReadError.under step)

namespace Datum

/-- Reports that something else was wanted, unless the text breaks here. -/
def refuse {α : Type} (wanted : String) : Datum → Reading α
  | .broken reading _ => .error (.broken reading)
  | datum => .error (.here (.invalidType datum wanted))

/-- Passes over a value that nobody wants. -/
def skip (datum : Datum) : Reading Unit :=
  match datum.shapeBreakage with
  | some breakage => .error (.broken breakage)
  | none => .ok ()

/-- Takes in a whole value, whatever it says. -/
def buffer (datum : Datum) : Reading Unit :=
  match datum.breakage with
  | some breakage => .error (.broken breakage)
  | none => .ok ()

def asString : Datum → Reading String
  | .string s => .ok s
  | datum => datum.refuse "a string"

def asBool : Datum → Reading Bool
  | .bool b => .ok b
  | datum => datum.refuse "a boolean"

/-- The greatest integer of 64 bits with a sign. -/
def greatestInteger : Int := Int64.maxValue.toInt

def asInteger : Datum → Reading Int64
  | .integer n =>
    if n ≤ greatestInteger then .ok (Int64.ofInt n)
    else .error (.here (.invalidValue (.integer n) "i64"))
  | datum => datum.refuse "i64"

/-- An integer is taken for the nearest floating-point number. -/
def asFloat : Datum → Reading Binary64
  | .float x => .ok x
  | .integer n => .ok (Binary64.ofRatio (n < 0) n.natAbs 1)
  | datum => datum.refuse "f64"

/-- A value that may be `null`. -/
def asOptional {α : Type} (read : Datum → Reading α) : Datum → Reading (Option α)
  | .null => .ok none
  | datum => some <$> read datum

/-- Reads the items of a list from the given index on. -/
def readItems {α : Type} (read : Datum → Reading α) : Nat → List Datum → Reading (List α)
  | _, [] => .ok []
  | index, item :: rest => do
    let value ← within (.item index) (read item)
    return value :: (← readItems read (index + 1) rest)

def asList {α : Type} (read : Datum → Reading α) : Datum → Reading (List α)
  | .list items => readItems read 0 items
  | datum => datum.refuse "a sequence"

/-- Looks a name up among the variants of an enumeration. -/
def chooseVariant {α : Type} (variants : List (String × α)) (name : String) : Reading α :=
  match variants.lookup name with
  | some value => .ok value
  | none => .error (.here (.unknownVariant name (variants.map Prod.fst)))

end Datum

/-- One field of a structure and how its value goes into it. -/
structure Field (α : Type) where
  name : String
  required : Bool
  set : Datum → α → Reading α

/-- What is made of a list with more items than a structure has fields, from the whole length and
    the number of fields. -/
abbrev Surplus := Nat → Nat → Option ReadError

namespace Surplus

/-- In a JSON text a list that goes on is malformed. -/
def malformed : Surplus := fun _ _ => some (.broken .malformed)

/-- In a value that was taken in before, the length is wrong. -/
def counted : Surplus := fun length fields =>
  some (.here (.invalidLength length
    (if fields = 1 then "1 element in sequence" else s!"{fields} elements in sequence")))

/-- In a JSON value that came on its own, the length is wrong. -/
def tooMany : Surplus := fun length _ =>
  some (.here (.invalidLength length "fewer elements in array"))

/-- In a TOML document nobody looks at the rest. -/
def ignored : Surplus := fun _ _ => none

end Surplus

namespace Field

variable {α : Type}

/-- How a structure with its number of fields is called. -/
def counted (wanted : String) (fields : Nat) : String :=
  if fields = 1 then s!"{wanted} with 1 element" else s!"{wanted} with {fields} elements"

/-- Reads the members of a record in the order of the text. -/
def readMembers (fields : List (Field α)) :
    List (String × Datum) → (seen : List String) → α → Reading (List String × α)
  | [], seen, value => .ok (seen, value)
  | (name, datum) :: rest, seen, value =>
    match fields.find? (·.name = name) with
    | none => do
      datum.skip
      readMembers fields rest seen value
    | some field => do
      if name ∈ seen then throw (.here (.duplicateField name))
      let value ← within (.field name) (field.set datum value)
      readMembers fields rest (name :: seen) value

/-- Reads the items of a list into the fields in their order. -/
def readInOrder (wanted : String) (surplus : Surplus) (whole length : Nat) (index : Nat) :
    List (Field α) → List Datum → α → Reading α
  | [], [], value => .ok value
  | [], item :: _, value =>
    match item, surplus length whole with
    | .broken reading _, some _ => .error (.broken reading)
    | _, some error => .error error
    | _, none => .ok value
  | field :: fields, [], value =>
    if field.required then .error (.here (.invalidLength index (counted wanted whole)))
    else readInOrder wanted surplus whole length (index + 1) fields [] value
  | field :: fields, item :: items, value => do
    let value ← within (.item index) (field.set item value)
    readInOrder wanted surplus whole length (index + 1) fields items value

/-- Reads a structure, starting from the values that its optional fields have when absent. -/
def readStructure (wanted : String) (surplus : Surplus) (fields : List (Field α)) (start : α)
    (datum : Datum) : Reading α :=
  match datum, datum.members? with
  | .list items, _ =>
    readInOrder wanted surplus fields.length items.length 0 fields items start
  | _, some members => do
    let (seen, value) ← readMembers fields members [] start
    match fields.find? (fun field => field.required && !seen.contains field.name) with
    | some field => throw (.here (.missingField field.name))
    | none => return value
  | _, none => datum.refuse wanted

end Field

end LlvmBackend
