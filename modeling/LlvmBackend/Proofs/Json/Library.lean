import LlvmBackend.Json

/-! # What a JSON library gives back

What is assumed of a library is said of single numbers, of single strings, and of containers, which
say no more and no less than what their parts say alone. Main statement: a datum whose numbers come
back is read as it was, with its floating-point numbers as they come back (`Library.parse_print`).
-/

namespace LlvmBackend

namespace Datum

mutual

/-- How many containers of a datum stand inside each other. -/
def nesting : Datum → Nat
  | .list items => nestingOfItems items + 1
  | .record members => nestingOfMembers members + 1
  | _ => 0

def nestingOfItems : List Datum → Nat
  | [] => 0
  | item :: rest => max item.nesting (nestingOfItems rest)

def nestingOfMembers : List (String × Datum) → Nat
  | [] => 0
  | (_, item) :: rest => max item.nesting (nestingOfMembers rest)

end

theorem shapeBreakage_of_asFloat {datum : Datum} {y : Binary64} (found : datum.asFloat = .ok y) :
    datum.shapeBreakage = none := by
  cases datum <;> first | rfl | cases found

theorem breakage_of_asFloat {datum : Datum} {y : Binary64} (found : datum.asFloat = .ok y) :
    datum.breakage = none := by
  cases datum <;> first | rfl | cases found

end Datum

namespace Json.Library

variable (json : Library)

/-! ## Assumptions -/

/-- What the text of a datum says. -/
def reread (datum : Datum) : Datum := (json.parse (json.print datum)).root

/-- A number that is read back, up to equality of numbers, from its text. -/
def Rereads (x : Binary64) : Prop :=
  ∃ y, json.read Datum.asFloat (json.print (.float x)) = .ok y ∧ y.same x

/-- The integers of 64 bits are read back, and so are the given numbers as far as they are finite. -/
structure RereadsNumbers (floats : List Binary64) : Prop where
  integers : ∀ value : Int64,
    json.parse (json.print (.integer value.toInt)) = ⟨.integer value.toInt, false⟩
  floats : ∀ x ∈ floats, x.isFinite = true → json.Rereads x

/-- Strings are read back, whatever characters they have. -/
def RereadsStrings : Prop := ∀ s, json.parse (json.print (.string s)) = ⟨.string s, false⟩

mutual

/-- A datum that JSON can say, with numbers that are read back. -/
def Legible : Datum → Prop
  | .null | .bool _ | .string _ => True
  | .integer n => ∃ value : Int64, value.toInt = n
  | .float x => x.isFinite = true ∧ json.Rereads x
  | .list items => LegibleItems items
  | .record members => LegibleMembers members
  | .moment _ | .broken _ _ => False

def LegibleItems : List Datum → Prop
  | [] => True
  | item :: rest => Legible item ∧ LegibleItems rest

def LegibleMembers : List (String × Datum) → Prop
  | [] => True
  | (_, item) :: rest => Legible item ∧ LegibleMembers rest

end

mutual

/-- A datum with each of its numbers and strings as its own text says it. -/
def rereadParts : Datum → Datum
  | .list items => .list (rereadItems items)
  | .record members => .record (rereadMembers members)
  | .null => .null
  | .bool b => .bool b
  | datum => json.reread datum

def rereadItems : List Datum → List Datum
  | [] => []
  | item :: rest => rereadParts item :: rereadItems rest

def rereadMembers : List (String × Datum) → List (String × Datum)
  | [] => []
  | (name, item) :: rest => (name, rereadParts item) :: rereadMembers rest

end

/-- Nothing is rejected but nesting beyond a depth: a text says what its parts say alone. -/
def RereadsNested (depth : Nat) : Prop :=
  ∀ datum, json.Legible datum → datum.nesting ≤ depth →
    json.parse (json.print datum) = ⟨json.rereadParts datum, false⟩

/-! ## Whole data -/

mutual

/-- A datum with its floating-point numbers as they come back. -/
def echo : Datum → Datum
  | .float x => json.reread (.float x)
  | .list items => .list (echoItems items)
  | .record members => .record (echoMembers members)
  | datum => datum

def echoItems : List Datum → List Datum
  | [] => []
  | item :: rest => echo item :: echoItems rest

def echoMembers : List (String × Datum) → List (String × Datum)
  | [] => []
  | (name, item) :: rest => (name, echo item) :: echoMembers rest

end

variable {json}

theorem read_eq_ok_iff {α : Type} {readDatum : Datum → Reading α} {text : String} {value : α} :
    json.read readDatum text = .ok value ↔
      readDatum (json.parse text).root = .ok value ∧ (json.parse text).trailing = false := by
  simp only [read, bind, Except.bind, pure, Except.pure, throw, throwThe, MonadExceptOf.throw]
  cases readDatum (json.parse text).root with
  | error e => simp
  | ok found => cases (json.parse text).trailing <;> simp

theorem Rereads.asFloat {x : Binary64} (rereads : json.Rereads x) :
    ∃ y, (json.reread (.float x)).asFloat = .ok y ∧ y.same x := by
  obtain ⟨y, found, same⟩ := rereads
  exact ⟨y, (read_eq_ok_iff.mp found).1, same⟩

variable {floats : List Binary64}

mutual

/-- The parts of a datum come back as they were, but for floating-point numbers. -/
theorem rereadParts_eq_echo (numbers : json.RereadsNumbers floats) (strings : json.RereadsStrings) :
    ∀ (datum : Datum), json.Legible datum → json.rereadParts datum = json.echo datum
  | .null, _ | .bool _, _ | .float _, _ => rfl
  | .integer _, ⟨value, is⟩ => by
      subst is
      exact congrArg Document.root (numbers.integers value)
  | .string s, _ => congrArg Document.root (strings s)
  | .list items, legible =>
      congrArg Datum.list (rereadItems_eq_echoItems numbers strings items legible)
  | .record members, legible =>
      congrArg Datum.record (rereadMembers_eq_echoMembers numbers strings members legible)

theorem rereadItems_eq_echoItems (numbers : json.RereadsNumbers floats)
    (strings : json.RereadsStrings) :
    ∀ (items : List Datum), json.LegibleItems items → json.rereadItems items = json.echoItems items
  | [], _ => rfl
  | item :: rest, ⟨legible, others⟩ => by
      rw [rereadItems, echoItems, rereadParts_eq_echo numbers strings item legible,
        rereadItems_eq_echoItems numbers strings rest others]

theorem rereadMembers_eq_echoMembers (numbers : json.RereadsNumbers floats)
    (strings : json.RereadsStrings) :
    ∀ (members : List (String × Datum)), json.LegibleMembers members →
      json.rereadMembers members = json.echoMembers members
  | [], _ => rfl
  | (name, item) :: rest, ⟨legible, others⟩ => by
      rw [rereadMembers, echoMembers, rereadParts_eq_echo numbers strings item legible,
        rereadMembers_eq_echoMembers numbers strings rest others]

end

theorem parse_print (numbers : json.RereadsNumbers floats) (strings : json.RereadsStrings)
    {depth : Nat} (nested : json.RereadsNested depth) {datum : Datum}
    (legible : json.Legible datum) (shallow : datum.nesting ≤ depth) :
    json.parse (json.print datum) = ⟨json.echo datum, false⟩ := by
  rw [nested datum legible shallow, rereadParts_eq_echo numbers strings datum legible]

mutual

/-- What comes back has no break in it. -/
theorem breakage_echo : ∀ (datum : Datum), json.Legible datum → (json.echo datum).breakage = none
  | .null, _ | .bool _, _ | .integer _, _ | .string _, _ => rfl
  | .float _, ⟨_, rereads⟩ =>
    have ⟨_, found, _⟩ := rereads.asFloat
    Datum.breakage_of_asFloat found
  | .list items, legible => breakageInList_echoItems items legible
  | .record members, legible => breakageInRecord_echoMembers members legible

theorem breakageInList_echoItems : ∀ (items : List Datum), json.LegibleItems items →
    Datum.breakageInList (json.echoItems items) = none
  | [], _ => rfl
  | item :: items, ⟨legible, others⟩ => by
    rw [echoItems, Datum.breakageInList, breakage_echo item legible, Option.none_or,
      breakageInList_echoItems items others]

theorem breakageInRecord_echoMembers : ∀ (members : List (String × Datum)),
    json.LegibleMembers members → Datum.breakageInRecord (json.echoMembers members) = none
  | [], _ => rfl
  | (_, item) :: members, ⟨legible, others⟩ => by
    rw [echoMembers, Datum.breakageInRecord, breakage_echo item legible, Option.none_or,
      breakageInRecord_echoMembers members others]

end

end Json.Library

end LlvmBackend
