import LlvmBackend.Datum.Reading

/-!
# Libraries for JSON texts

A library writes data as JSON texts and says what a text is about. Typed values are read out of the
document that it makes of a text, whichever library that is.
-/

namespace LlvmBackend.Json

/-- What a text says: its value, and whether anything follows it. -/
structure Document where
  root : Datum
  trailing : Bool

/-- A library for JSON texts. A text that breaks off has a document, too: what it says up to the
    break. -/
structure Library where
  print : Datum → String
  parse : String → Document

/-- Reads a typed value out of a text; nothing may follow it. -/
def Library.read {α : Type} (json : Library) (readDatum : Datum → Reading α) (text : String) :
    Reading α := do
  let document := json.parse text
  let value ← readDatum document.root
  if document.trailing then throw (.broken .malformed)
  return value

end LlvmBackend.Json
