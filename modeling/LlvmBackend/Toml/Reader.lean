import LlvmBackend.Datum.Reading
import LlvmBackend.Toml.Scanner

/-!
# Reading TOML documents

A document is a sequence of lines that open tables or give values. An error about what a document
says is shown under the line that says it.
-/

namespace LlvmBackend.Toml

open Text Text.Scan

/-- What a line of a document says. -/
inductive Line where
  | nothing
  | value (path : List Key) (key : Key) (item : Item) (span : Span)
  | header (repeated : Bool) (path : List Key) (span : Span)

/-- A line that says nothing. -/
def blankLine : Scan Line := do
  discard (maybe comment)
  lineEnd
  return .nothing

/-- A header in double brackets. -/
def headerLine : Scan Line := do
  let (path, span) ← spanned (word "[[" *> dottedKey <* word "]]")
  lineRest
  return .header true path span

/-- A header in single brackets. -/
def plainHeaderLine : Scan Line := do
  let (path, span) ← spanned (char '[' *> dottedKey <* char ']')
  lineRest
  return .header false path span

/-- A key and its value. -/
def valueLine : Scan Line := do
  let path ← dottedKey
  char '='
  spaces
  let (item, span) ← spanned (value (depthLimit - 1))
  lineRest
  match path.getLast? with
  | some key => return .value path.dropLast key item span
  | none => failure

/-- One line; what starts with two brackets can be nothing but a header of repeated tables. -/
def line : Scan Line := do
  spaces
  let repeated := (← maybe (word "[[").ahead).isSome
  if repeated then headerLine else blankLine <|> plainHeaderLine <|> valueLine

/-- The lines of a whole text; a mark of the byte order may stand before them. -/
def documentLines : Scan (List Line) := do
  discard (maybe (char '\uFEFF'))
  let lines ← many line
  spaces
  atEnd
  return lines

/-- Adds what a line says. -/
def Assembly.add (assembly : Assembly) : Line → Option Assembly
  | .nothing => some assembly
  | .value path key item span => assembly.addLine path key item span
  | .header repeated path span => assembly.startHeader repeated path span

/-- The root of the document that a text is. -/
def document? (input : String) : Option Item := do
  let (lines, _) ← documentLines input.toList
  let assembly ← lines.foldlM Assembly.add (.start input.length)
  assembly.finish

/-! ## Errors -/

/-- Why a text does not say what was wanted: it is no document, or it says something else there. -/
inductive Error where
  | malformed
  | mismatch (span : Span) (why : Mismatch)

/-- Where the part of a document at a place stands; a table without header and braces is shown by
    its key. -/
def spanAt (outer : Span) : Item → List DatumStep → Span
  | item, [] => item.span?.getD outer
  | .table _ entries _, .field name :: place =>
    match List.find? (fun entry => entry.1.name = name) entries with
    | some (key, item) => spanAt key.span item place
    | none => outer
  | .array items _, .item index :: place | .tables items, .item index :: place =>
    match items[index]? with
    | some item => spanAt (item.span?.getD outer) item place
    | none => outer
  | item, _ => item.span?.getD outer

/-- Reads a typed value out of a document. -/
def read {α : Type} (readDatum : Datum → Reading α) (text : String) : Except Error α :=
  match document? text with
  | none => .error .malformed
  | some root =>
    match readDatum root.datum with
    | .ok value => .ok value
    | .error (.broken _) => .error .malformed
    | .error (.mismatch place why) =>
      .error (.mismatch (spanAt ⟨text.length, text.length⟩ root place) why)

/-- The number of bytes of a text. -/
def byteLength (text : List Char) : Nat := (String.ofList text).utf8ByteSize

/-- The line that a part of a text starts on, the line's number, and the number of characters of
    it before the part. -/
def lineOf (text : List Char) (start : Nat) : List Char × Nat × Nat :=
  let before := text.take start
  let column := (before.reverse.takeWhile (· ≠ '\n')).length
  let line := (text.drop (start - column)).takeWhile (· ≠ '\n')
  (line, before.count '\n' + 1, column)

/-- An error under the line that it is about: as many marks as the part has bytes, up to the end of
    the line, but at least one. -/
def framed (text : List Char) (span : Span) (message : String) : String :=
  let start := text.length - span.fromStart
  let (line, number, column) := lineOf text start
  let part := (text.drop start).take (span.fromStart - span.fromEnd)
  let marks := max 1 (min (byteLength part) (byteLength line - column))
  let margin := String.ofList (List.replicate ((toString number).length + 1) ' ')
  let shift := String.ofList (List.replicate (column + 1) ' ')
  s!"TOML parse error at line {number}, column {column + 1}\n" ++ margin ++ "|\n" ++
    s!"{number} | " ++ String.ofList line ++ "\n" ++ margin ++ "|" ++ shift ++
    String.ofList (List.replicate marks '^') ++ "\n" ++ message ++ "\n"

/-- The message about an error in a text. -/
def Error.message (text : String) : Error → String
  | .malformed => framed text.toList ⟨text.length, text.length⟩ "invalid document"
  | .mismatch span why => framed text.toList span (why.message DecimalLayout.plain)

end LlvmBackend.Toml
