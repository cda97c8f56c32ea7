import LlvmBackend.Datum.Reading

/-!
# Places of errors in JSON texts

A message about a text that is no module tree ends in the line and column where reading stopped.
-/

namespace LlvmBackend.Json

/-- The line and the column at the end of a text; columns count bytes. -/
def endOf (text : List Char) : Nat × Nat :=
  let last := (text.reverse.takeWhile (· ≠ '\n')).reverse
  (text.count '\n' + 1, (String.ofList last).utf8ByteSize)

/-- A text without the blanks of JSON at its end. -/
def withoutBlanks (text : List Char) : List Char :=
  (text.reverse.dropWhile fun c => c = ' ' || c = '\t' || c = '\n' || c = '\r').reverse

/-- The message about an error in a text. A text that ends too early stops at its end, and a field
    that is missing is missed at the end of what is there. -/
def errorText (text : String) (error : ReadError) : String :=
  let (message, line, column) := match error with
    | .broken .truncated => ("EOF while parsing a value", endOf text.toList)
    | .broken .malformed => ("expected value", endOf text.toList)
    | .mismatch _ why => (why.message DecimalLayout.json, endOf (withoutBlanks text.toList))
  s!"{message} at line {line} column {column}"

end LlvmBackend.Json
