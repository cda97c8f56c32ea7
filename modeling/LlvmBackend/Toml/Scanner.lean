import LlvmBackend.Binary64.Decimal
import LlvmBackend.Text.Scan
import LlvmBackend.Toml

/-!
# Scanning the parts of TOML documents

Blanks, comments, keys and values. A scanner that fails says only that a text is no document, so
each alternative is tried in turn.
-/

namespace LlvmBackend.Toml

open Text Text.Scan

/-- A scanned part and where it stands. -/
def spanned {α : Type} (part : Scan α) : Scan (α × Span) := fun input =>
  (part input).map fun (value, rest) => ((value, ⟨input.length, rest.length⟩), rest)

/-! ## Blanks and comments -/

def isSpace (c : Char) : Bool := c = ' ' || c = '\t'

/-- Whether a character may stand in a comment: all but controls. -/
def isPlain (c : Char) : Bool := c = '\t' || (0x20 ≤ c.toNat && c.toNat ≠ 0x7F)

def spaces : Scan Unit := discard (span isSpace)

def newline : Scan Unit := char '\n' <|> word "\r\n"

def comment : Scan Unit := do
  char '#'
  discard (span isPlain)

/-- The end of a line or of the whole text. -/
def lineEnd : Scan Unit := newline <|> atEnd

/-- What may follow on a line: blanks and a comment. -/
def lineRest : Scan Unit := do
  spaces
  discard (maybe comment)
  lineEnd

/-- Blanks, line ends and comments inside brackets. -/
def gap : Scan Unit :=
  discard <| many <| discard (span1 isSpace) <|> newline <|> (comment *> newline)

/-! ## Texts -/

def isHexDigit (c : Char) : Bool :=
  c.isDigit || ('a' ≤ c && c ≤ 'f') || ('A' ≤ c && c ≤ 'F')

/-- The value of a digit of any base. -/
def digitValue (c : Char) : Nat :=
  if c.isDigit then c.toNat - '0'.toNat
  else if 'a' ≤ c then c.toNat - 'a'.toNat + 10
  else c.toNat - 'A'.toNat + 10

/-- The number that digits of a base give. -/
def numberOf (base : Nat) (digits : List Char) : Nat :=
  digits.foldl (fun n c => n * base + digitValue c) 0

/-- A character by its number, in so many digits. -/
def codePoint (digits : Nat) : Scan Char := do
  let n := numberOf 16 (← exactly digits isHexDigit)
  if n.isValidChar then return Char.ofNat n else failure

/-- The character after a backslash. -/
def escape : Scan Char := do
  char '\\'
  match ← one fun _ => true with
  | 'b' => return '\x08'
  | 't' => return '\t'
  | 'n' => return '\n'
  | 'f' => return '\x0c'
  | 'r' => return '\r'
  | '"' => return '"'
  | '\\' => return '\\'
  | 'u' => codePoint 4
  | 'U' => codePoint 8
  | _ => failure

/-- What stands for itself between double quotes. -/
def isBasic (c : Char) : Bool := isPlain c && c ≠ '"' && c ≠ '\\'

/-- What stands for itself between single quotes. -/
def isLiteral (c : Char) : Bool := isPlain c && c ≠ '\''

/-- A text between double quotes. -/
def basicText : Scan (List Char) := do
  char '"'
  let parts ← many (span1 isBasic <|> (do return [← escape]))
  char '"'
  return parts.flatten

/-- A text between single quotes. -/
def literalText : Scan (List Char) := char '\'' *> span isLiteral <* char '\''

/-- A line end as part of a text. -/
def lineBreak : Scan (List Char) := newline *> pure ['\n']

/-- A backslash at the end of a line, which takes the blanks and line ends after it away. -/
def joinedLines : Scan (List Char) := do
  char '\\'
  spaces
  newline
  discard (many (discard (one isSpace) <|> newline))
  return []

/-- One or two quotes before something. -/
def quotesBefore (quote : Char) (next : Scan Unit) : Scan (List Char) :=
  (char quote *> char quote *> next.ahead *> pure [quote, quote]) <|>
    (char quote *> next.ahead *> pure [quote])

/-- A text between triples of a quote, from its parts; one or two quotes are part of it, also right
    before its end. -/
def longText (quote : Char) (part : Scan (List Char)) : Scan (List Char) := do
  let triple := char quote *> char quote *> char quote
  triple
  discard (maybe newline)
  let inner := quotesBefore quote (discard (one (· ≠ quote)))
  let parts ← many (part <|> inner)
  let last ← maybe (quotesBefore quote triple)
  triple
  return parts.flatten ++ last.getD []

/-- A text over several lines between double quotes. -/
def longBasicText : Scan (List Char) :=
  longText '"' (span1 isBasic <|> joinedLines <|> (do return [← escape]) <|> lineBreak)

/-- A text over several lines between single quotes. -/
def longLiteralText : Scan (List Char) := longText '\'' (span1 isLiteral <|> lineBreak)

def text : Scan (List Char) := longBasicText <|> basicText <|> longLiteralText <|> literalText

/-! ## Keys -/

def isBareKey (c : Char) : Bool := c.isAlphanum || c = '_' || c = '-'

/-- One part of a key. -/
def keyPart : Scan Key := do
  spaces
  let (name, span) ← spanned (basicText <|> literalText <|> span1 isBareKey)
  spaces
  return ⟨String.ofList name, span⟩

/-- How many parts a key must stay below, and how many containers a value. -/
def depthLimit : Nat := 80

/-- The parts of a key. -/
def dottedKey : Scan (List Key) := do
  let parts ← separated keyPart (char '.')
  if parts.length < depthLimit then return parts else failure

/-! ## Numbers -/

/-- Digits with single underscores between them. -/
def digitsOf (kind : Char → Bool) : Scan (List Char) := do
  let first ← one kind
  return first :: (← many (one kind <|> (char '_' *> one kind)))

/-- The sign before a number: whether it is negative. -/
def sign : Scan Bool := (char '-' *> pure true) <|> (char '+' *> pure false) <|> pure false

/-- Digits that do not start with a zero, unless that is all. -/
def wholeDigits : Scan (List Char) := do
  let first ← one Char.isDigit
  if first = '0' then return [first]
  return first :: (← many (one Char.isDigit <|> (char '_' *> one Char.isDigit)))

def isInteger (n : Int) : Bool := Int64.minValue.toInt ≤ n && n ≤ Int64.maxValue.toInt

/-- An integer in a base other than ten. -/
def basedInteger (mark : String) (base : Nat) (kind : Char → Bool) : Scan Int := do
  word mark
  return numberOf base (← digitsOf kind)

def decimalInteger : Scan Int := do
  let negative ← sign
  let n : Int := numberOf 10 (← wholeDigits)
  return if negative then -n else n

def integer : Scan Datum := do
  let n ← basedInteger "0x" 16 isHexDigit <|> basedInteger "0o" 8 (fun c => '0' ≤ c && c ≤ '7') <|>
    basedInteger "0b" 2 (fun c => c = '0' || c = '1') <|> decimalInteger
  if isInteger n then return .integer n else failure

/-- The digits after a point. -/
def fraction : Scan (List Char) := char '.' *> digitsOf Char.isDigit

/-- The power of ten after an `e`. -/
def power : Scan Int := do
  discard (one fun c => c = 'e' || c = 'E')
  let negative ← sign
  let n : Int := numberOf 10 (← digitsOf Char.isDigit)
  return if negative then -n else n

/-- The powers of ten beyond which every decimal is zero or infinite. -/
def farPower : Int := 400

/-- The number nearest to a decimal of any size. -/
def nearest (negative : Bool) (digits : Nat) (exponent : Int) : Binary64 :=
  let leading : Int := exponent + (Nat.toDigits 10 digits).length
  if digits = 0 ∨ leading < -farPower then .ofMagnitude negative 0
  else if farPower < leading then .ofMagnitude negative Binary64.infinityBits
  else Decimal.nearest negative ⟨digits, exponent⟩

/-- A number with a fraction or a power of ten; one too large for a number is refused. -/
def decimalFloat : Scan Binary64 := do
  let negative ← sign
  let whole ← wholeDigits
  let (fraction, power) ←
    (do return ([], ← power)) <|> (do return (← fraction, (← maybe power).getD 0))
  let x := nearest negative (numberOf 10 (whole ++ fraction)) (power - fraction.length)
  if x.isFinite ∨ negative then return x else failure

/-- Infinity, or what is not a number. -/
def specialFloat : Scan Binary64 := do
  let negative ← sign
  (word "inf" *> pure (.ofMagnitude negative Binary64.infinityBits)) <|>
    (word "nan" *> pure (Binary64.notANumber negative))

def float : Scan Datum := .float <$> (decimalFloat <|> specialFloat)

/-! ## Dates and times -/

/-- A number of two digits in a range. -/
def twoDigits (least greatest : Nat) : Scan (List Char) := do
  let digits ← exactly 2 Char.isDigit
  let n := numberOf 10 digits
  if least ≤ n ∧ n ≤ greatest then return digits else failure

def isLeapYear (year : Nat) : Bool := year % 4 = 0 && (year % 100 ≠ 0 || year % 400 = 0)

def daysOfMonth (year month : Nat) : Nat :=
  if month = 2 then (if isLeapYear year then 29 else 28)
  else if month = 4 ∨ month = 6 ∨ month = 9 ∨ month = 11 then 30
  else 31

/-- A day that there is. -/
def date : Scan (List Char) := do
  let year ← exactly 4 Char.isDigit
  char '-'
  let month ← twoDigits 1 12
  char '-'
  let day ← twoDigits 1 (daysOfMonth (numberOf 10 year) (numberOf 10 month))
  return year ++ ['-'] ++ month ++ ['-'] ++ day

/-- A fraction of a second: nine digits count, and zeros at the end do not. -/
def secondFraction : Scan (List Char) := do
  char '.'
  let digits ← span1 Char.isDigit
  let counted := ((digits.take 9).reverse.dropWhile (· = '0')).reverse
  return if counted.isEmpty then [] else '.' :: counted

/-- A time of day, up to a leap second. -/
def time : Scan (List Char) := do
  let hour ← twoDigits 0 23
  char ':'
  let minute ← twoDigits 0 59
  char ':'
  let second ← twoDigits 0 60
  let part ← maybe secondFraction
  return hour ++ [':'] ++ minute ++ [':'] ++ second ++ part.getD []

/-- The distance from universal time. -/
def offset : Scan (List Char) :=
  (one (fun c => c = 'Z' || c = 'z') *> pure ['Z']) <|> do
    let sign ← one fun c => c = '+' || c = '-'
    let hour ← twoDigits 0 23
    char ':'
    let minute ← twoDigits 0 59
    let none := hour ++ minute = ['0', '0', '0', '0']
    return (if none then '+' else sign) :: hour ++ [':'] ++ minute

/-- A time after a date. -/
def timeOfDay : Scan (List Char) := do
  discard (one fun c => c = 'T' || c = 't' || c = ' ')
  let time ← time
  return 'T' :: time ++ (← maybe offset).getD []

def moment : Scan Datum := do
  let text ← (do return (← date) ++ (← maybe timeOfDay).getD []) <|> time
  return .moment (String.ofList text)

/-! ## Values -/

/-- A value that is no container. -/
def scalar : Scan Datum :=
  (do return .string (String.ofList (← text))) <|> moment <|> float <|> integer <|>
    (word "true" *> pure (.bool true)) <|> (word "false" *> pure (.bool false))

/-- A list between brackets; a comma may stand at its end. -/
def array (inner : Scan Item) : Scan (List Item) := do
  char '['
  let items ← maybe (separated (gap *> inner <* gap) (char ','))
  if items.isSome then discard (maybe (char ','))
  gap
  char ']'
  return items.getD []

/-- A key and its value inside braces. -/
def inlinePair (inner : Scan Item) : Scan (List Key × Key × Item) := do
  let path ← dottedKey
  char '='
  spaces
  let item ← inner
  spaces
  match path.getLast? with
  | some key => return (path.dropLast, key, item)
  | none => failure

/-- A table between braces. -/
def inlineTable (inner : Scan Item) : Scan Entries := do
  char '\x7b'
  let pairs ← maybe (separated (inlinePair inner) (char ','))
  spaces
  char '\x7d'
  StateT.lift (inlineEntries (pairs.getD []))

/-- A value with at most so many containers inside each other. -/
def value : Nat → Scan Item
  | 0 => do
    let (datum, span) ← spanned scalar
    return .scalar datum span
  | depth + 1 =>
    (do
      let (items, span) ← spanned (array (value depth))
      return .array items span) <|>
    (do
      let (entries, span) ← spanned (inlineTable (value depth))
      return .table .inline entries (some span)) <|>
    (do
      let (datum, span) ← spanned scalar
      return .scalar datum span)

end LlvmBackend.Toml
