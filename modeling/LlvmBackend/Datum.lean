import LlvmBackend.Binary64.Decimal
import LlvmBackend.Text.Quoted

/-!
# Data as documents hold them

A datum is what a JSON or TOML document says at one place. A text that breaks off still has a datum:
the part before the break, with a broken leaf where the break stands, so that whoever reads the
datum in the order of the text meets its faults in that order.
-/

namespace LlvmBackend

/-- How a text fails to be a document: it says something wrong, or it ends too early. -/
inductive Breakage where
  | malformed
  | truncated
  deriving DecidableEq, Repr

/-- A value of a document. -/
inductive Datum where
  | null
  | bool (b : Bool)
  | integer (n : Int)
  | float (x : Binary64)
  | string (s : String)
  | list (items : List Datum)
  | record (members : List (String × Datum))
  /-- A date, a time or both, by their text. -/
  | moment (text : String)
  /-- A place where the text breaks for a reader of this value, and for one who only skips it. A
      value that can be skipped may still be unreadable, as a number beyond all floating-point
      numbers. -/
  | broken (reading : Breakage) (skipping : Option Breakage)

namespace Datum

mutual

/-- The first break that reading the whole datum meets. -/
def breakage : Datum → Option Breakage
  | .broken reading _ => some reading
  | .list items => breakageInList items
  | .record members => breakageInRecord members
  | _ => none

def breakageInList : List Datum → Option Breakage
  | [] => none
  | item :: rest => item.breakage.or (breakageInList rest)

def breakageInRecord : List (String × Datum) → Option Breakage
  | [] => none
  | (_, item) :: rest => item.breakage.or (breakageInRecord rest)

end

mutual

/-- The first break that skipping the datum meets. -/
def shapeBreakage : Datum → Option Breakage
  | .broken _ skipping => skipping
  | .list items => shapeBreakageInList items
  | .record members => shapeBreakageInRecord members
  | _ => none

def shapeBreakageInList : List Datum → Option Breakage
  | [] => none
  | item :: rest => item.shapeBreakage.or (shapeBreakageInList rest)

def shapeBreakageInRecord : List (String × Datum) → Option Breakage
  | [] => none
  | (_, item) :: rest => item.shapeBreakage.or (shapeBreakageInRecord rest)

end

/-- The members of a record. A date or time counts as a record with one member, which goes by no
    name that anybody asks for. -/
def members? : Datum → Option (List (String × Datum))
  | .record members => some members
  | .moment text => some [("", .string text)]
  | _ => none

/-- What a datum is called where another one was wanted. -/
def described (layout : DecimalLayout) : Datum → String
  | .null => "null"
  | .bool b => s!"boolean `{b}`"
  | .integer n => s!"integer `{n}`"
  | .float x => s!"floating point `{layout.text x}`"
  | .string s => "string " ++ Text.quoted s
  | .list _ => "sequence"
  | .record _ | .moment _ => "map"
  | .broken _ _ => "broken text"

end Datum

end LlvmBackend
