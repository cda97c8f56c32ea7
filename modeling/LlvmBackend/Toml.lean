import LlvmBackend.Datum

/-!
# TOML documents

The tables of a TOML document as they are put together from its lines: a header opens a table once,
a dotted key opens the tables on its way, and no key has two values.
-/

namespace LlvmBackend.Toml

/-- A part of a text, by the number of characters from its start and from its end to the end of the
    whole text. -/
structure Span where
  fromStart : Nat
  fromEnd : Nat
  deriving DecidableEq, Repr

/-- From the start of one part to the end of another. -/
def Span.through (first last : Span) : Span := ⟨first.fromStart, last.fromEnd⟩

/-- One part of a dotted key. -/
structure Key where
  name : String
  span : Span
  deriving DecidableEq, Repr

/-- How a table came to be. -/
inductive TableForm where
  /-- By a header of its own, or as the root. -/
  | headed
  /-- On the way of a header to another table. -/
  | implied
  /-- On the way of a dotted key. -/
  | dotted
  /-- As a value, complete from the start. -/
  | inline
  deriving DecidableEq, Repr

/-- What stands under a key. -/
inductive Item where
  | scalar (datum : Datum) (span : Span)
  | array (items : List Item) (span : Span)
  | table (form : TableForm) (entries : List (Key × Item)) (span : Option Span)
  /-- Tables under one header with double brackets. -/
  | tables (items : List Item)

/-- The entries of a table in their order. -/
abbrev Entries := List (Key × Item)

namespace Item

/-- Where an item stands; a table without header and braces stands nowhere. -/
def span? : Item → Option Span
  | .scalar _ span | .array _ span => some span
  | .table _ _ span => span
  | .tables items =>
    match items.head?, items.getLast? with
    | some (.table _ _ (some first)), some (.table _ _ (some last)) => some (first.through last)
    | _, _ => none

mutual

/-- What an item says. -/
def datum : Item → Datum
  | .scalar datum _ => datum
  | .array items _ => .list (itemData items)
  | .table _ entries _ => .record (entryData entries)
  | .tables items => .list (itemData items)

def itemData : List Item → List Datum
  | [] => []
  | item :: rest => item.datum :: itemData rest

def entryData : List (Key × Item) → List (String × Datum)
  | [] => []
  | (key, item) :: rest => (key.name, item.datum) :: entryData rest

end

end Item

namespace Entries

/-- What stands under a name. -/
def find? (entries : Entries) (name : String) : Option Item :=
  (List.find? (fun entry => entry.1.name = name) entries).map Prod.snd

/-- Puts an item in the place of the one under a name, or at the end. -/
def put (entries : Entries) (key : Key) (item : Item) : Entries :=
  match entries with
  | [] => [(key, item)]
  | (other, old) :: rest =>
    if other.name = key.name then (other, item) :: rest else (other, old) :: put rest key item

/-- Leaves the entry of a name out. -/
def erase (entries : Entries) (name : String) : Entries :=
  List.filter (fun entry => entry.1.name ≠ name) entries

end Entries

/-- Puts a changed item in the place of the last one of a list. -/
def replaceLast (items : List Item) (item : Item) : List Item := items.dropLast ++ [item]

/-- A change of the entries of a table that also gives a result. -/
abbrev TableStep (β : Type) := TableForm → Entries → Option (β × Entries)

/-- Changes the table at the end of a way, and opens the tables on the way that are not there. A
    dotted key does not go through tables that have a header. -/
def alongPath {β : Type} (byDottedKey : Bool) (step : TableStep β) :
    List Key → TableStep β
  | [] => step
  | key :: path => fun _ entries =>
    match entries.find? key.name with
    | none => do
      let form : TableForm := if byDottedKey then .dotted else .implied
      let (result, inner) ← alongPath byDottedKey step path form []
      return (result, entries.put key (.table form inner none))
    | some (.table form inner span) =>
      if form = .inline ∨ (byDottedKey ∧ form = .headed) then none
      else do
        let (result, inner) ← alongPath byDottedKey step path form inner
        return (result, entries.put key (.table form inner span))
    | some (.tables items) =>
      match items.getLast? with
      | some (.table form inner span) => do
        let (result, inner) ← alongPath byDottedKey step path form inner
        return (result, entries.put key (.tables (replaceLast items (.table form inner span))))
      | _ => none
    | some _ => none

/-- Adds a value under a key that has none. A dotted key adds only to tables that dotted keys
    opened, and a plain key only to other ones. -/
def addValue (byDottedKey : Bool) (key : Key) (item : Item) : TableStep Unit := fun form entries =>
  if byDottedKey != decide (form = .dotted) then none
  else if (entries.find? key.name).isSome then none
  else some ((), entries ++ [(key, item)])

/-- Adds a value under a dotted key. -/
def addDotted (entries : Entries) (form : TableForm) (path : List Key) (key : Key) (item : Item) :
    Option Entries :=
  Prod.snd <$> alongPath true (addValue (!path.isEmpty) key item) path form entries

/-- The braces of a table as a value, from its keys and values. -/
def inlineEntries (pairs : List (List Key × Key × Item)) : Option Entries :=
  pairs.foldlM (fun entries (path, key, item) => addDotted entries .inline path key item) []

/-! ## Tables and headers -/

/-- A document in the middle of its lines: the tables that are complete, and the one whose lines are
    being read, with its way from the root, which is empty for the root itself. -/
structure Assembly where
  root : Entries := []
  rootSpan : Span
  path : List Key := []
  current : Entries := []
  currentSpan : Span
  /-- Whether the header has double brackets. -/
  repeated : Bool := false

namespace Assembly

/-- Before the first line of a text of a length. -/
def start (length : Nat) : Assembly where
  rootSpan := ⟨length, length⟩
  currentSpan := ⟨length, length⟩

/-- Adds the value of a line to the table that is being read. -/
def addLine (assembly : Assembly) (path : List Key) (key : Key) (item : Item) (span : Span) :
    Option Assembly := do
  let current ← addDotted assembly.current .headed path key item
  return { assembly with current, currentSpan := assembly.currentSpan.through span }

/-- Adds a complete table at the end of a table. -/
def closeTable (key : Key) (table : Item) : TableStep Unit := fun _ entries =>
  some ((), entries.put key table)

/-- Adds a complete table at the end of the tables under a key. -/
def closeRepeated (key : Key) (table : Item) : TableStep Unit := fun _ entries =>
  match entries.find? key.name with
  | some (.tables items) => some ((), entries.put key (.tables (items ++ [table])))
  | _ => none

/-- Puts the table that is being read in its place. -/
def close (assembly : Assembly) : Option Assembly :=
  match assembly.path.getLast? with
  | none => some { assembly with root := assembly.current, rootSpan := assembly.currentSpan }
  | some key => do
    let table := Item.table .headed assembly.current (some assembly.currentSpan)
    let step := if assembly.repeated then closeRepeated key table else closeTable key table
    let (_, root) ← alongPath false step assembly.path.dropLast .headed assembly.root
    return { assembly with root }

/-- Takes the table under a key out, if a header implied it, and makes room for it again. -/
def openTable (key : Key) : TableStep Entries := fun _ entries =>
  match entries.find? key.name with
  | none => some ([], entries)
  | some (.table .implied inner _) => some (inner, entries.erase key.name)
  | some _ => none

/-- Makes sure that there are tables under a key. -/
def openRepeated (key : Key) : TableStep Entries := fun _ entries =>
  match entries.find? key.name with
  | none => some ([], entries.put key (.tables []))
  | some (.tables _) => some ([], entries)
  | some _ => none

/-- Goes on at a header. -/
def startHeader (assembly : Assembly) (repeated : Bool) (path : List Key) (span : Span) :
    Option Assembly := do
  let assembly ← assembly.close
  let key ← path.getLast?
  let step := if repeated then openRepeated key else openTable key
  let (current, root) ← alongPath false step path.dropLast .headed assembly.root
  return { assembly with root, path, current, currentSpan := span, repeated }

/-- The root of a document whose lines are all read. -/
def finish (assembly : Assembly) : Option Item := do
  let assembly ← assembly.close
  return .table .headed assembly.root (some assembly.rootSpan)

end Assembly

end LlvmBackend.Toml
