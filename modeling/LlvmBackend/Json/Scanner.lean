import LlvmBackend.Datum

/-!
# The pieces of a JSON text

String literals, numbers and words of a JSON text, each taken off the front of the remaining
characters. A piece that cannot be read, or that the text breaks off, is a broken datum. Main
statements: what is left after a piece is never longer than what there was
(`length_scanString_le`, `length_scanNumber_le`, `length_scanWord_le`).
-/

namespace LlvmBackend.Json

/-- A breakage that no reader gets past, not even one that only skips. -/
def dead (breakage : Breakage) : Datum := .broken breakage (some breakage)

/-- A value that has the shape of one but cannot be read. -/
def unreadable : Datum := .broken .malformed none

/-- The breakage where more was wanted: the text is at its end, or says something else. -/
def breakageAt (rest : List Char) : Breakage := if rest.isEmpty then .truncated else .malformed

/-! ## String literals -/

/-- Where a scanner stands inside a string literal. -/
inductive StringState where
  /-- Between characters. -/
  | plain
  /-- After a backslash. -/
  | escape
  /-- Among the four digits of an escape, with some of them left, the number they give so far and
      the leading surrogate before the escape, if any. -/
  | digits (left value : Nat) (lead : Option Nat)
  /-- After a leading surrogate. -/
  | paired (lead : Nat)
  /-- After a leading surrogate and a backslash. -/
  | pairedEscape (lead : Nat)

/-- What one character does to a scanner inside a string literal. -/
inductive StringStep where
  /-- Go on; `lone` says that a surrogate without its partner has been met. -/
  | go (state : StringState) (lone : Bool) (text : List Char)
  | close (lone : Bool)
  | halt (breakage : Breakage)

def isLeadSurrogate (n : Nat) : Bool := 0xD800 ≤ n && n ≤ 0xDBFF

def isTrailSurrogate (n : Nat) : Bool := 0xDC00 ≤ n && n ≤ 0xDFFF

/-- The code point of a pair of surrogates. -/
def surrogatePair (lead trail : Nat) : Nat := 0x10000 + (lead - 0xD800) * 0x400 + (trail - 0xDC00)

/-- The value of a hexadecimal digit. -/
def hexValue? (c : Char) : Option Nat :=
  if '0' ≤ c && c ≤ '9' then some (c.toNat - '0'.toNat)
  else if 'a' ≤ c && c ≤ 'f' then some (c.toNat - 'a'.toNat + 10)
  else if 'A' ≤ c && c ≤ 'F' then some (c.toNat - 'A'.toNat + 10)
  else none

/-- The character that a letter after a backslash stands for. -/
def escaped? (c : Char) : Option Char :=
  match c with
  | '"' => some '"'
  | '\\' => some '\\'
  | '/' => some '/'
  | 'b' => some '\x08'
  | 'f' => some '\x0c'
  | 'n' => some '\n'
  | 'r' => some '\r'
  | 't' => some '\t'
  | _ => none

/-- Starts the four digits of an escape; a text with less than four bytes left ends too early. -/
def startDigits (lead : Option Nat) (lone : Bool) (text rest : List Char) : StringStep :=
  if (String.ofList (rest.take 4)).utf8ByteSize < 4 then .halt .truncated
  else .go (.digits 4 0 lead) lone text

/-- Uses the number that the four digits of an escape give. -/
def endDigits (value : Nat) (lead : Option Nat) (lone : Bool) (text : List Char) : StringStep :=
  match lead with
  | some lead =>
    if isTrailSurrogate value then .go .plain lone (Char.ofNat (surrogatePair lead value) :: text)
    else .go .plain true text
  | none =>
    if lone then .go .plain true text
    else if isLeadSurrogate value then .go (.paired value) lone text
    else if isTrailSurrogate value then .go .plain true text
    else .go .plain lone (Char.ofNat value :: text)

/-- A character between others. -/
def plainStep (lone : Bool) (text : List Char) (c : Char) : StringStep :=
  if c = '"' then .close lone
  else if c = '\\' then .go .escape lone text
  else if c.toNat < 0x20 then .halt .malformed
  else .go .plain lone (c :: text)

/-- A character right after a backslash. -/
def escapeStep (lone : Bool) (text : List Char) (c : Char) (rest : List Char) : StringStep :=
  if c = 'u' then startDigits none lone text rest
  else
    match escaped? c with
    | some meant => .go .plain lone (meant :: text)
    | none => .halt .malformed

/-- What a character does in a string. -/
def stringStep (state : StringState) (lone : Bool) (text : List Char) (c : Char)
    (rest : List Char) : StringStep :=
  match state with
  | .plain => plainStep lone text c
  | .escape => escapeStep lone text c rest
  | .digits left value lead =>
    match hexValue? c with
    | none => .halt .malformed
    | some digit =>
      if left ≤ 1 then endDigits (value * 16 + digit) lead lone text
      else .go (.digits (left - 1) (value * 16 + digit) lead) lone text
  | .paired lead =>
    if c = '\\' then .go (.pairedEscape lead) lone text else plainStep true text c
  | .pairedEscape lead =>
    if c = 'u' then startDigits (some lead) lone text rest else escapeStep true text c rest

/-- A break inside a string literal: a surrogate without its partner stops a reader before it. -/
def brokenString (lone : Bool) (breakage : Breakage) : Datum :=
  .broken (if lone then .malformed else breakage) (some breakage)

/-- Takes the rest of a string literal, whose text so far is given backwards. -/
def scanString (state : StringState) (lone : Bool) (text : List Char) :
    List Char → Datum × List Char
  | [] => (brokenString lone .truncated, [])
  | c :: rest =>
    match stringStep state lone text c rest with
    | .go state lone text => scanString state lone text rest
    | .close lone => (if lone then unreadable else .string (String.ofList text.reverse), rest)
    | .halt breakage => (brokenString lone breakage, rest)

theorem length_scanString_le (state : StringState) (lone : Bool) (text input : List Char) :
    (scanString state lone text input).2.length ≤ input.length := by
  induction input generalizing state lone text with
  | nil => simp [scanString]
  | cons c rest ih =>
    simp only [scanString]
    split
    · exact Nat.le_succ_of_le (ih _ _ _)
    · simp
    · simp

/-! ## Numbers -/

/-- The digits of a number. -/
structure NumberText where
  negative : Bool
  whole : List Char
  fraction : Option (List Char)
  /-- Whether the power of ten is negative, and its digits. -/
  power : Option (Bool × List Char)

/-- The natural number that decimal digits give. -/
def naturalOf (digits : List Char) : Nat :=
  digits.foldl (fun n c => n * 10 + (c.toNat - '0'.toNat)) 0

/-- The greatest natural number of 64 bits. -/
def greatestNatural : Nat := UInt64.size - 1

/-- The greatest magnitude of a negative integer of 64 bits. -/
def greatestNegative : Nat := Int64.minValue.toInt.natAbs

/-- Adds digits to a significand while it fits into 64 bits; gives the significand and how many
    digits went into it. -/
def significandOf : (significand count : Nat) → List Char → Nat × Nat
  | significand, count, [] => (significand, count)
  | significand, count, c :: rest =>
    let next := significand * 10 + (c.toNat - '0'.toNat)
    if greatestNatural < next then (significand, count) else significandOf next (count + 1) rest

/-- The greatest power of ten that a binary64 number can hold. -/
def greatestPower : Nat := 308

/-- Divides by the greatest power of ten a number of times. -/
def divideRepeatedly (x : Binary64) : Nat → Binary64
  | 0 => x
  | times + 1 => divideRepeatedly (x.div (Binary64.powerOfTen greatestPower)) times

/-- The number `significand * 10 ^ exponent` of a significand of 64 bits: the significand is
    rounded, and then multiplied or divided by the rounded power of ten, for very small numbers in
    several steps (after three the result is zero). There is none beyond all finite numbers. -/
def scaled? (negative : Bool) (significand : Nat) (exponent : Int) : Option Binary64 :=
  let start := Binary64.ofRatio negative significand 1
  let size := exponent.natAbs
  if significand = 0 then some start
  else if exponent < 0 then
    let big := (size - 1) / greatestPower
    some ((divideRepeatedly start (min big 3)).div
      (Binary64.powerOfTen (if big ≤ 3 then size - big * greatestPower else 0)))
  else if greatestPower < size then none
  else
    let x := start.mul (Binary64.powerOfTen size)
    if x.isFinite then some x else none

/-- The powers of ten that are told apart; beyond them a number is zero or too large. -/
def greatestExponent : Nat := Int32.maxValue.toInt.toNat

/-- The exponent that the digits after `e` add. -/
def NumberText.writtenExponent (number : NumberText) : Int :=
  match number.power with
  | none => 0
  | some (negative, digits) =>
    let size : Nat := min (naturalOf digits) greatestExponent
    if negative then -(size : Int) else size

/-- The value of a number: an integer if it has neither a fraction nor a power of ten and fits into
    64 bits, and else the nearest floating-point number. Negative zero is a floating-point number,
    and what lies beyond all floating-point numbers cannot be read. -/
def NumberText.value (number : NumberText) : Datum :=
  let (significand, used) := significandOf 0 0 number.whole
  let unused := number.whole.length - used
  let bare := number.fraction.isNone && number.power.isNone
  if bare && unused = 0 && (!number.negative || (0 < significand && significand ≤ greatestNegative)) then
    .integer (if number.negative then -(significand : Int) else significand)
  else
    let (significand, inFraction) := significandOf significand 0 (number.fraction.getD [])
    let exponent : Int := (unused : Int) - inFraction + number.writtenExponent
    match scaled? number.negative significand exponent with
    | some x => .float x
    | none => unreadable

/-- Takes the digits at the front. -/
def scanDigits (input : List Char) : List Char × List Char :=
  (input.takeWhile Char.isDigit, input.dropWhile Char.isDigit)

theorem length_scanDigits_le (input : List Char) :
    (scanDigits input).2.length ≤ input.length :=
  (List.dropWhile_sublist _).length_le

/-- Takes the sign at the front of a power of ten. -/
def scanSign : List Char → Bool × List Char
  | '-' :: rest => (true, rest)
  | '+' :: rest => (false, rest)
  | input => (false, input)

theorem length_scanSign_le (input : List Char) : (scanSign input).2.length ≤ input.length := by
  unfold scanSign
  split <;> simp

/-- Takes the power of ten of a number. -/
def scanPower (number : NumberText) (input : List Char) : Datum × List Char :=
  match input with
  | c :: rest =>
    if c = 'e' ∨ c = 'E' then
      let (negative, rest) := scanSign rest
      let (digits, rest) := scanDigits rest
      if digits.isEmpty then (dead (breakageAt rest), rest)
      else ({ number with power := some (negative, digits) }.value, rest)
    else (number.value, input)
  | [] => (number.value, input)

theorem length_scanPower_le (number : NumberText) (input : List Char) :
    (scanPower number input).2.length ≤ input.length := by
  have bound (rest : List Char) :
      (scanDigits (scanSign rest).2).2.length ≤ rest.length :=
    Nat.le_trans (length_scanDigits_le _) (length_scanSign_le _)
  unfold scanPower
  split
  · split
    · dsimp only
      split <;> exact Nat.le_succ_of_le (bound _)
    · exact Nat.le_refl _
  · exact Nat.le_refl _

/-- Takes the fraction of a number and what follows it. -/
def scanFraction (number : NumberText) (input : List Char) : Datum × List Char :=
  match input with
  | '.' :: rest =>
    let (digits, rest) := scanDigits rest
    if digits.isEmpty then (dead (breakageAt rest), rest)
    else scanPower { number with fraction := some digits } rest
  | _ => scanPower number input

theorem length_scanFraction_le (number : NumberText) (input : List Char) :
    (scanFraction number input).2.length ≤ input.length := by
  unfold scanFraction
  split
  · next rest =>
    dsimp only
    split
    · exact Nat.le_succ_of_le (length_scanDigits_le _)
    · exact Nat.le_succ_of_le (Nat.le_trans (length_scanPower_le _ _) (length_scanDigits_le _))
  · exact length_scanPower_le _ _

/-- Takes the digits of a number after its sign. A zero in front stands alone. -/
def scanUnsigned (negative : Bool) (input : List Char) : Datum × List Char :=
  let (digits, rest) := scanDigits input
  match digits with
  | [] => (dead (breakageAt rest), rest)
  | '0' :: _ :: _ => (dead .malformed, rest)
  | _ => scanFraction ⟨negative, digits, none, none⟩ rest

theorem length_scanUnsigned_le (negative : Bool) (input : List Char) :
    (scanUnsigned negative input).2.length ≤ input.length := by
  unfold scanUnsigned
  dsimp only
  split
  · exact length_scanDigits_le _
  · exact length_scanDigits_le _
  · exact Nat.le_trans (length_scanFraction_le _ _) (length_scanDigits_le _)

/-! ## Words -/

/-- Takes the rest of a word that is known by its first letter. -/
def scanWord (meaning : Datum) : List Char → List Char → Datum × List Char
  | [], input => (meaning, input)
  | _ :: _, [] => (dead .truncated, [])
  | wanted :: word, c :: rest =>
    if c = wanted then scanWord meaning word rest else (dead .malformed, rest)

theorem length_scanWord_le (meaning : Datum) (word input : List Char) :
    (scanWord meaning word input).2.length ≤ input.length := by
  induction word generalizing input with
  | nil => simp [scanWord]
  | cons wanted word ih =>
    cases input with
    | nil => simp [scanWord]
    | cons c rest =>
      simp only [scanWord]
      split
      · exact Nat.le_succ_of_le (ih rest)
      · simp

end LlvmBackend.Json
