import LlvmBackend.Json
import LlvmBackend.Json.Printer
import LlvmBackend.Json.Scanner

/-!
# Reading JSON texts

A JSON text is cut into tokens, and the tokens build a datum: `document` never fails, since a text
that breaks off gives the datum up to the break. Lists and records nest at most 127 deep; a deeper
one has the shape of a value but cannot be read. Together with the printer this is a library
(`standard`).
-/

namespace LlvmBackend.Json

/-- The pieces of a JSON text. -/
inductive Token where
  | openList
  | closeList
  | openRecord
  | closeRecord
  | comma
  | colon
  /-- A string literal. -/
  | text (datum : Datum)
  /-- A number or a word. -/
  | atom (datum : Datum)
  /-- A character that starts no token. -/
  | other

/-- The blanks between tokens. -/
def isSpace (c : Char) : Bool := c = ' ' || c = '\t' || c = '\n' || c = '\r'

/-- The token that starts with a character, and what is left after it. -/
def scanToken (c : Char) (rest : List Char) : Token × List Char :=
  match c with
  | '[' => (.openList, rest)
  | ']' => (.closeList, rest)
  | '\x7b' => (.openRecord, rest)
  | '\x7d' => (.closeRecord, rest)
  | ',' => (.comma, rest)
  | ':' => (.colon, rest)
  | '"' =>
    let (datum, rest) := scanString .plain false [] rest
    (.text datum, rest)
  | 'n' =>
    let (datum, rest) := scanWord .null ['u', 'l', 'l'] rest
    (.atom datum, rest)
  | 't' =>
    let (datum, rest) := scanWord (.bool true) ['r', 'u', 'e'] rest
    (.atom datum, rest)
  | 'f' =>
    let (datum, rest) := scanWord (.bool false) ['a', 'l', 's', 'e'] rest
    (.atom datum, rest)
  | '-' =>
    let (datum, rest) := scanUnsigned true rest
    (.atom datum, rest)
  | _ => (.other, rest)

theorem length_scanToken_le (c : Char) (rest : List Char) :
    (scanToken c rest).2.length ≤ rest.length := by
  unfold scanToken
  split <;>
    first
    | exact Nat.le_refl _
    | exact length_scanString_le _ _ _ _
    | exact length_scanWord_le _ _ _
    | exact length_scanUnsigned_le _ _

theorem length_scanUnsigned_lt {c : Char} {rest : List Char} (h : c.isDigit = true) :
    (scanUnsigned false (c :: rest)).2.length ≤ rest.length := by
  have bound : (scanDigits (c :: rest)).2.length ≤ rest.length := by
    simp only [scanDigits, List.dropWhile_cons, h, if_true]
    exact (List.dropWhile_sublist _).length_le
  unfold scanUnsigned
  dsimp only
  split
  · exact bound
  · exact bound
  · exact Nat.le_trans (length_scanFraction_le _ _) bound

/-- The tokens of a text. -/
def tokens : List Char → List Token
  | [] => []
  | c :: rest =>
    if isSpace c then tokens rest
    else if _ : c.isDigit = true then
      let number := scanUnsigned false (c :: rest)
      .atom number.1 :: tokens number.2
    else
      let token := scanToken c rest
      token.1 :: tokens token.2
termination_by text => text.length
decreasing_by
  · exact Nat.lt_succ_self _
  · exact Nat.lt_succ_of_le (length_scanUnsigned_lt ‹_›)
  · exact Nat.lt_succ_of_le (length_scanToken_le c rest)

/-- A container that is not closed yet, with its parts so far backwards. -/
inductive Open where
  | list (before : List Datum)
  /-- `name` is that of the member whose value stands open. -/
  | record (before : List (String × Datum)) (name : String)

/-- What may come next. -/
inductive Expecting where
  | value
  /-- A value or the end of an empty list. -/
  | firstItem
  /-- A name or the end of an empty record. -/
  | firstName
  | name
  | colon
  /-- After a value: a comma or the end of its container. -/
  | next
  deriving DecidableEq

/-- How many containers may stand inside each other. -/
def deepest : Nat := 127

/-- A closed container inside other ones. -/
def sealed (outer : List Open) (datum : Datum) : Datum :=
  if outer.length < deepest then datum else .broken .malformed datum.shapeBreakage

/-- Puts a value into the innermost container. -/
def give (datum : Datum) : List Open → List Open
  | [] => []
  | .list before :: outer => .list (datum :: before) :: outer
  | .record before name :: outer => .record ((name, datum) :: before) "" :: outer

/-- The container itself. -/
def Open.closed : Open → Datum
  | .list before => .list before.reverse
  | .record before _ => .record before.reverse

/-- Closes all containers around a value. -/
def closeAll : List Open → Datum → Datum
  | [], datum => datum
  | .list before :: outer, datum =>
    closeAll outer (sealed outer (.list (datum :: before).reverse))
  | .record before name :: outer, datum =>
    closeAll outer (sealed outer (.record ((name, datum) :: before).reverse))

/-- The document of a text that breaks inside some containers. -/
def broken (stack : List Open) (breakage : Breakage) : Document :=
  ⟨closeAll stack (dead breakage), false⟩

/-- Builds the value of a text from its tokens. -/
def build : Expecting → List Open → List Token → Document
  | _, stack, [] => broken stack .truncated
  | expecting, stack, token :: rest =>
    match expecting, token, stack with
    | .value, .openList, stack | .firstItem, .openList, stack =>
      build .firstItem (.list [] :: stack) rest
    | .value, .openRecord, stack | .firstItem, .openRecord, stack =>
      build .firstName (.record [] "" :: stack) rest
    | .value, .text datum, stack | .firstItem, .text datum, stack
    | .value, .atom datum, stack | .firstItem, .atom datum, stack =>
      match datum, stack with
      | .broken reading (some skipping), stack =>
        ⟨closeAll stack (.broken reading (some skipping)), false⟩
      | datum, [] => ⟨datum, !rest.isEmpty⟩
      | datum, stack => build .next (give datum stack) rest
    | .firstItem, .closeList, top :: outer | .next, .closeList, top@(.list _) :: outer
    | .firstName, .closeRecord, top :: outer | .next, .closeRecord, top@(.record _ _) :: outer =>
      match outer with
      | [] => ⟨sealed outer top.closed, !rest.isEmpty⟩
      | outer => build .next (give (sealed outer top.closed) outer) rest
    | .firstName, .text datum, .record before _ :: outer
    | .name, .text datum, .record before _ :: outer =>
      match datum with
      | .string name => build .colon (.record before name :: outer) rest
      | .broken reading _ =>
        ⟨closeAll (.record before "" :: outer) (.broken reading (some reading)), false⟩
      | _ => broken stack .malformed
    | .colon, .colon, stack => build .value stack rest
    | .next, .comma, stack@(.list _ :: _) => build .value stack rest
    | .next, .comma, stack@(.record _ _ :: _) => build .name stack rest
    | _, _, stack => broken stack .malformed

/-- What a text says. -/
def document (text : List Char) : Document := build .value [] (tokens text)

/-- The library of this printer and this reader. -/
def standard : Library where
  print := pretty
  parse text := document text.toList

end LlvmBackend.Json
