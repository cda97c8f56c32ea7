import LlvmBackend.Ir.Printer
import LlvmBackend.Json.Scanner

/-! # Text constants

The bytes of a text are printed between quotes, most of them as characters and the others as escapes.
However they stand side by side, they are read back as they were. Main statement:
`Ir.escapes_escapedBytes`.
-/

namespace LlvmBackend.Ir

/-- The bytes that stand between the quotes of a text constant: a backslash and two hexadecimal
    digits stand for one byte, any other character for itself. -/
def unescape : List Char → List UInt8
  | [] => []
  | '\\' :: high :: low :: rest =>
    match Json.hexValue? high, Json.hexValue? low with
    | some m, some n => UInt8.ofNat (16 * m + n) :: unescape rest
    | _, _ => String.utf8EncodeChar '\\' ++ unescape (high :: low :: rest)
  | c :: rest => String.utf8EncodeChar c ++ unescape rest

def isUpperHex (c : Char) : Bool := c.isDigit || 'A' ≤ c && c ≤ 'F'

/-- A character that shows and is no quote. -/
def isQuotable (c : Char) : Bool := ' ' ≤ c && c ≤ '~' && c != '"'

/-- Behind every backslash there are two upper-case hexadecimal digits. -/
def DigitsFollow (text : List Char) : Prop :=
  ∀ before after, text = before ++ '\\' :: after →
    ∃ high low rest, after = high :: low :: rest ∧ isUpperHex high ∧ isUpperHex low

/-- A text that stands for bytes between quotes. -/
structure Escapes (text : List Char) (bytes : List UInt8) : Prop where
  quotable : ∀ c ∈ text, isQuotable c
  digits : DigitsFollow text
  read : unescape text = bytes

/-! ## Digits -/

/-- The upper-case hexadecimal digit of a number. -/
def hexDigit (n : Nat) : Char := if n < 10 then Char.ofNat (48 + n) else Char.ofNat (55 + n)

theorem hexByte_eq (byte : UInt8) :
    hexByte byte = [hexDigit (byte.toNat / 16), hexDigit (byte.toNat % 16)] := rfl

theorem hexValue?_hexDigit : ∀ n < 16, Json.hexValue? (hexDigit n) = some n := by decide

theorem isUpperHex_hexDigit : ∀ n < 16, isUpperHex (hexDigit n) := by decide

theorem isQuotable_hexDigit : ∀ n < 16, isQuotable (hexDigit n) := by decide

theorem hexDigit_ne_backslash : ∀ n < 16, hexDigit n ≠ '\\' := by decide

/-! ## Single bytes -/

variable {text : List Char} {bytes : List UInt8}

theorem unescape_of_ne {c : Char} (ne : c ≠ '\\') :
    unescape (c :: text) = String.utf8EncodeChar c ++ unescape text := by
  rw [unescape]
  rintro high low rest rfl
  contradiction

/-- A byte that stands for itself is read back as itself. -/
theorem plain_byte {byte : UInt8} (plain : isPlainByte byte) :
    isQuotable (Char.ofNat byte.toNat) ∧ Char.ofNat byte.toNat ≠ '\\' ∧
      String.utf8EncodeChar (Char.ofNat byte.toNat) = [byte] := by
  have all : ∀ n < 256, isPlainByte (.ofNat n) →
      isQuotable (Char.ofNat n) ∧ Char.ofNat n ≠ '\\' ∧
        String.utf8EncodeChar (Char.ofNat n) = [.ofNat n] := by decide +kernel
  have same : UInt8.ofNat byte.toNat = byte := UInt8.ofNat_toNat
  simpa only [same] using all byte.toNat byte.toNat_lt (same.symm ▸ plain)

theorem DigitsFollow.cons {c : Char} (follow : DigitsFollow text) (ne : c ≠ '\\') :
    DigitsFollow (c :: text) := by
  intro before after eq
  cases before with
  | nil => exact absurd (List.cons.inj eq).1 ne
  | cons first before => exact follow before after (List.cons.inj eq).2

theorem DigitsFollow.escape {m n : Nat} (follow : DigitsFollow text) (high : m < 16) (low : n < 16) :
    DigitsFollow ('\\' :: hexDigit m :: hexDigit n :: text) := by
  intro before after eq
  cases before with
  | nil =>
      have digits := (List.cons.inj eq).2.symm
      exact ⟨_, _, _, digits, isUpperHex_hexDigit m high, isUpperHex_hexDigit n low⟩
  | cons first before =>
      have inside := (follow.cons (hexDigit_ne_backslash n low)).cons (hexDigit_ne_backslash m high)
      exact inside before after (List.cons.inj eq).2

namespace Escapes

theorem nil : Escapes [] [] where
  quotable := by simp
  digits := by simp [DigitsFollow]
  read := rfl

/-- A character in front that is no backslash stands for itself. -/
theorem cons {c : Char} {byte : UInt8} (escapes : Escapes text bytes) (quotable : isQuotable c)
    (ne : c ≠ '\\') (read : String.utf8EncodeChar c = [byte]) :
    Escapes (c :: text) (byte :: bytes) where
  quotable := List.forall_mem_cons.mpr ⟨quotable, escapes.quotable⟩
  digits := escapes.digits.cons ne
  read := by rw [unescape_of_ne ne, read, escapes.read, List.singleton_append]

/-- An escape in front stands for one byte. -/
theorem escape {m n : Nat} (escapes : Escapes text bytes) (high : m < 16) (low : n < 16) :
    Escapes ('\\' :: hexDigit m :: hexDigit n :: text) (.ofNat (16 * m + n) :: bytes) where
  quotable := by
    simp only [List.forall_mem_cons]
    exact ⟨rfl, isQuotable_hexDigit m high, isQuotable_hexDigit n low, escapes.quotable⟩
  digits := escapes.digits.escape high low
  read := by
    simp only [unescape, hexValue?_hexDigit m high, hexValue?_hexDigit n low, escapes.read]

theorem byte (escapes : Escapes text bytes) (byte : UInt8) :
    Escapes (escapedByte byte ++ text) (byte :: bytes) := by
  have lt : byte.toNat < 256 := byte.toNat_lt
  unfold escapedByte
  split
  · next plain =>
      obtain ⟨quotable, ne, read⟩ := plain_byte plain
      exact escapes.cons quotable ne read
  · have parts : 16 * (byte.toNat / 16) + byte.toNat % 16 = byte.toNat := Nat.div_add_mod _ 16
    have escape := escapes.escape (m := byte.toNat / 16) (n := byte.toNat % 16) (by omega) (by omega)
    rw [parts, UInt8.ofNat_toNat] at escape
    rw [hexByte_eq]
    exact escape

end Escapes

/-- Bytes are printed so that they are read back, whatever they are. -/
theorem escapes_escapedBytes (bytes : List UInt8) : Escapes (escapedBytes bytes) bytes := by
  induction bytes with
  | nil => exact .nil
  | cons byte rest ih => exact ih.byte byte

end LlvmBackend.Ir
