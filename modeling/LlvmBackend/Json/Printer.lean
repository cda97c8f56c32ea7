import LlvmBackend.Datum

/-!
# Writing JSON texts

A datum as JSON text over several lines, two blanks deeper for each container around a part, or on
one line without blanks.
-/

namespace LlvmBackend.Json

/-- One character of a string literal. -/
def escapedChar (c : Char) : List Char :=
  if c = '"' then ['\\', '"']
  else if c = '\\' then ['\\', '\\']
  else if c = '\x08' then ['\\', 'b']
  else if c = '\x0c' then ['\\', 'f']
  else if c = '\n' then ['\\', 'n']
  else if c = '\r' then ['\\', 'r']
  else if c = '\t' then ['\\', 't']
  else if c.toNat < 0x10 then ['\\', 'u', '0', '0', '0'] ++ Nat.toDigits 16 c.toNat
  else if c.toNat < 0x20 then ['\\', 'u', '0', '0'] ++ Nat.toDigits 16 c.toNat
  else [c]

/-- A string literal. -/
def stringText (s : String) : List Char := '"' :: s.toList.flatMap escapedChar ++ ['"']

/-- An integer. -/
def integerText (n : Int) : List Char :=
  if n < 0 then '-' :: Nat.toDigits 10 n.natAbs else Nat.toDigits 10 n.natAbs

/-- A floating-point number; what is not finite has no JSON form but `null`. -/
def floatText (x : Binary64) : List Char :=
  if x.isFinite then DecimalLayout.json.finiteText x else "null".toList

/-- A new line and the blanks at its start. -/
def newLine (depth : Nat) : List Char := '\n' :: List.replicate (2 * depth) ' '

mutual

/-- The text of a datum over several lines; the parts of a container stand at `depth + 1`. -/
def prettyText (depth : Nat) : Datum → List Char
  | .null => "null".toList
  | .bool b => (if b then "true" else "false").toList
  | .integer n => integerText n
  | .float x => floatText x
  | .string s => stringText s
  | .list [] => ['[', ']']
  | .list (item :: rest) =>
    ['['] ++ newLine (depth + 1) ++ prettyText (depth + 1) item ++ prettyItems (depth + 1) rest ++
      newLine depth ++ [']']
  | .record [] => ['\x7b', '\x7d']
  | .record ((name, value) :: rest) =>
    ['\x7b'] ++ newLine (depth + 1) ++ stringText name ++ [':', ' '] ++
      prettyText (depth + 1) value ++ prettyMembers (depth + 1) rest ++ newLine depth ++ ['\x7d']
  | .moment text => stringText text
  | .broken _ _ => "null".toList

/-- The items of a list after the first. -/
def prettyItems (depth : Nat) : List Datum → List Char
  | [] => []
  | item :: rest => [','] ++ newLine depth ++ prettyText depth item ++ prettyItems depth rest

/-- The members of a record after the first. -/
def prettyMembers (depth : Nat) : List (String × Datum) → List Char
  | [] => []
  | (name, value) :: rest =>
    [','] ++ newLine depth ++ stringText name ++ [':', ' '] ++ prettyText depth value ++
      prettyMembers depth rest

end

/-- A datum as JSON text over several lines. -/
def pretty (datum : Datum) : String := String.ofList (prettyText 0 datum)

mutual

/-- The text of a datum on one line. -/
def compactText : Datum → List Char
  | .null => "null".toList
  | .bool b => (if b then "true" else "false").toList
  | .integer n => integerText n
  | .float x => floatText x
  | .string s => stringText s
  | .list [] => ['[', ']']
  | .list (item :: rest) => ['['] ++ compactText item ++ compactItems rest ++ [']']
  | .record [] => ['\x7b', '\x7d']
  | .record ((name, value) :: rest) =>
    ['\x7b'] ++ stringText name ++ [':'] ++ compactText value ++ compactMembers rest ++ ['\x7d']
  | .moment text => stringText text
  | .broken _ _ => "null".toList

/-- The items of a list after the first. -/
def compactItems : List Datum → List Char
  | [] => []
  | item :: rest => [','] ++ compactText item ++ compactItems rest

/-- The members of a record after the first. -/
def compactMembers : List (String × Datum) → List Char
  | [] => []
  | (name, value) :: rest =>
    [','] ++ stringText name ++ [':'] ++ compactText value ++ compactMembers rest

end

/-- A datum as JSON text on one line. -/
def compact (datum : Datum) : String := String.ofList (compactText datum)

end LlvmBackend.Json
