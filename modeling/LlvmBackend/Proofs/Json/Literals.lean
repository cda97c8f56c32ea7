import LlvmBackend.Json.Printer
import LlvmBackend.Json.Reader

/-! # Literals of JSON texts

What the printer writes for a word, a string or an integer, the reader takes as one token in front
of whatever the printer puts behind it. Main statements: `tokens_stringText`, `tokens_integerText`
and, for any number, `tokens_number`.
-/

namespace LlvmBackend.Json

/-! ## Strings -/

theorem hexValue?_digitChar : ∀ n < 16, hexValue? (Nat.digitChar n) = some n := by decide

/-- A control character without a letter of its own is written by its number. -/
theorem escapedChar_of_lt {c : Char} (control : c.toNat < 0x20)
    (unnamed : c ∉ ['\x08', '\x0c', '\n', '\r', '\t']) :
    escapedChar c =
      ['\\', 'u', '0', '0', (c.toNat / 16).digitChar, (c.toNat % 16).digitChar] := by
  simp only [List.mem_cons, List.not_mem_nil, or_false, not_or] at unnamed
  obtain ⟨back, feed, line, carriage, tab⟩ := unnamed
  have quote : c ≠ '"' := by rintro rfl; simp at control
  have slash : c ≠ '\\' := by rintro rfl; simp at control
  simp only [escapedChar, quote, slash, back, feed, line, carriage, tab, if_false]
  by_cases low : c.toNat < 16
  · rw [if_pos low, Nat.toDigits_of_lt_base low, Nat.div_eq_of_lt low, Nat.mod_eq_of_lt low]
    rfl
  · have one : c.toNat / 16 = 1 := by omega
    rw [if_neg low, if_pos control, Nat.toDigits_of_base_le (by decide) (Nat.le_of_not_lt low), one]
    rfl

theorem length_le_utf8ByteSize (text : List Char) :
    text.length ≤ (String.ofList text).utf8ByteSize := by
  induction text with
  | nil => exact Nat.zero_le _
  | cons c rest ih =>
    rw [String.ofList_cons, String.utf8ByteSize_append, String.utf8ByteSize_singleton]
    have := c.utf8Size_pos
    simp only [List.length_cons]
    omega

/-- The number of a control character is read back. -/
theorem scanString_number (text : List Char) {n : Nat} (control : n < 0x20) (rest : List Char) :
    scanString .plain false text
        (['\\', 'u', '0', '0', (n / 16).digitChar, (n % 16).digitChar] ++ rest) =
      scanString .plain false (Char.ofNat n :: text) rest := by
  have high := hexValue?_digitChar (n / 16) (by omega)
  have low := hexValue?_digitChar (n % 16) (by omega)
  have long := length_le_utf8ByteSize ['0', '0', (n / 16).digitChar, (n % 16).digitChar]
  have value : n / 16 * 16 + n % 16 = n := by omega
  have lead : isLeadSurrogate n = false := by simp [isLeadSurrogate]; omega
  have trail : isTrailSurrogate n = false := by simp [isTrailSurrogate]; omega
  have zero : hexValue? '0' = some 0 := rfl
  have starts : startDigits none false text
      ('0' :: '0' :: (n / 16).digitChar :: (n % 16).digitChar :: rest) =
        .go (.digits 4 0 none) false text := if_neg (Nat.not_lt.mpr long)
  simp [scanString, stringStep, plainStep, escapeStep, starts, zero, high, low, endDigits, value,
    lead, trail]

theorem scanString_escapedChar (text : List Char) (c : Char) (rest : List Char) :
    scanString .plain false text (escapedChar c ++ rest) =
      scanString .plain false (c :: text) rest := by
  by_cases named : c ∈ ['"', '\\', '\x08', '\x0c', '\n', '\r', '\t']
  · simp only [List.mem_cons, List.not_mem_nil, or_false] at named
    rcases named with rfl | rfl | rfl | rfl | rfl | rfl | rfl <;> rfl
  · simp only [List.mem_cons, List.not_mem_nil, or_false, not_or] at named
    obtain ⟨quote, slash, others⟩ := named
    by_cases control : c.toNat < 0x20
    · rw [escapedChar_of_lt control (by simpa using others), scanString_number _ control,
        Char.ofNat_toNat]
    · have plain : escapedChar c = [c] := by
        have low : ¬ c.toNat < 0x10 := by omega
        simp [escapedChar, quote, slash, others, control, low]
      simp [plain, scanString, stringStep, plainStep, quote, slash, control]

/-- A string literal is read back. -/
theorem scanString_literal (text : List Char) (cs rest : List Char) :
    scanString .plain false text (cs.flatMap escapedChar ++ '"' :: rest) =
      (.string (String.ofList (text.reverse ++ cs)), rest) := by
  induction cs generalizing text with
  | nil => simp [scanString, stringStep, plainStep]
  | cons c cs ih =>
    rw [List.flatMap_cons, List.append_assoc, scanString_escapedChar, ih]
    simp

@[simp] theorem tokens_stringText (s : String) (rest : List Char) :
    tokens (stringText s ++ rest) = .text (.string s) :: tokens rest := by
  have literal := scanString_literal [] s.toList rest
  rw [List.reverse_nil, List.nil_append, String.ofList_toList] at literal
  rw [stringText, List.cons_append, List.cons_append, List.append_assoc, tokens, if_neg (by decide),
    dif_neg (by decide)]
  simp only [scanToken, List.singleton_append, literal]

/-! ## Words -/

@[simp] theorem tokens_null (rest : List Char) :
    tokens ("null".toList ++ rest) = .atom .null :: tokens rest := by
  rw [show "null".toList = ['n', 'u', 'l', 'l'] by rfl, List.cons_append, tokens,
    if_neg (by decide), dif_neg (by decide)]
  rfl

@[simp] theorem tokens_bool (b : Bool) (rest : List Char) :
    tokens ((if b then "true" else "false").toList ++ rest) = .atom (.bool b) :: tokens rest := by
  cases b with
  | true =>
    rw [if_pos rfl, show "true".toList = ['t', 'r', 'u', 'e'] by rfl, List.cons_append, tokens,
      if_neg (by decide), dif_neg (by decide)]
    rfl
  | false =>
    rw [if_neg (by decide), show "false".toList = ['f', 'a', 'l', 's', 'e'] by rfl,
      List.cons_append, tokens, if_neg (by decide), dif_neg (by decide)]
    rfl

/-! ## Numbers -/

/-- What the printer puts behind a value: nothing, a comma or a new line. -/
def Apart (rest : List Char) : Prop := ∀ c ∈ rest.head?, c = ',' ∨ c = '\n'

/-- The number at the front of a text. -/
def scanNumber : List Char → Datum × List Char
  | '-' :: rest => scanUnsigned true rest
  | text => scanUnsigned false text

theorem scanNumber_of_ne {c : Char} (other : c ≠ '-') (more : List Char) :
    scanNumber (c :: more) = scanUnsigned false (c :: more) := by
  unfold scanNumber
  split
  · next eq => exact absurd (List.cons.inj eq).1 other
  · rfl

theorem scanNumber_of_isDigit {c : Char} (digit : c.isDigit = true) (more : List Char) :
    scanNumber (c :: more) = scanUnsigned false (c :: more) :=
  scanNumber_of_ne (by rintro rfl; cases digit) more

variable {rest : List Char}

section Behind

variable (apart : Apart rest)
include apart

theorem scanDigits_append (text : List Char) :
    scanDigits (text ++ rest) = ((scanDigits text).1, (scanDigits text).2 ++ rest) := by
  induction text with
  | nil =>
    cases rest with
    | nil => rfl
    | cons c rest =>
      have : c.isDigit = false := by
        rcases apart c rfl with rfl | rfl <;> rfl
      simp [scanDigits, this]
  | cons c text ih =>
    cases digit : c.isDigit <;> simp_all [scanDigits]

theorem scanSign_append (text : List Char) :
    scanSign (text ++ rest) = ((scanSign text).1, (scanSign text).2 ++ rest) := by
  cases text with
  | nil =>
    cases rest with
    | nil => rfl
    | cons c rest => rcases apart c rfl with rfl | rfl <;> rfl
  | cons c text =>
    by_cases minus : c = '-'
    · subst minus; rfl
    · by_cases plus : c = '+'
      · subst plus; rfl
      · have plain (more : List Char) : scanSign (c :: more) = (false, c :: more) := by
          unfold scanSign
          split <;> simp_all
        rw [List.cons_append, plain, plain, List.cons_append]

theorem scanPower_append {number : NumberText} {text : List Char}
    (sound : (scanPower number text).1.shapeBreakage = none) :
    scanPower number (text ++ rest) =
      ((scanPower number text).1, (scanPower number text).2 ++ rest) := by
  cases text with
  | nil =>
    cases rest with
    | nil => rfl
    | cons c rest => rcases apart c rfl with rfl | rfl <;> rfl
  | cons c text =>
    by_cases power : c = 'e' ∨ c = 'E'
    · simp only [List.cons_append, scanPower, if_pos power, scanSign_append apart,
        scanDigits_append apart] at sound ⊢
      split
      · next empty =>
        rw [if_pos empty] at sound
        cases sound
      · rfl
    · simp [scanPower, power]

theorem scanFraction_append {number : NumberText} {text : List Char}
    (sound : (scanFraction number text).1.shapeBreakage = none) :
    scanFraction number (text ++ rest) =
      ((scanFraction number text).1, (scanFraction number text).2 ++ rest) := by
  by_cases point : text.head? = some '.'
  · obtain ⟨text, rfl⟩ : ∃ more, text = '.' :: more := by
      cases text <;> simp_all
    simp only [List.cons_append, scanFraction, scanDigits_append apart] at sound ⊢
    split
    · next empty =>
      rw [if_pos empty] at sound
      cases sound
    · next digits =>
      rw [if_neg digits] at sound
      exact scanPower_append apart sound
  · have plain : ∀ text : List Char, text.head? ≠ some '.' →
        scanFraction number text = scanPower number text := by
      intro text other
      unfold scanFraction
      split
      · exact absurd rfl other
      · rfl
    have behind : (text ++ rest).head? ≠ some '.' := by
      cases text with
      | nil => intro dot; rcases apart '.' dot with eq | eq <;> cases eq
      | cons => exact point
    rw [plain _ point] at sound ⊢
    rw [plain _ behind]
    exact scanPower_append apart sound

/-- A number ends where the printer goes on. -/
theorem scanUnsigned_append {negative : Bool} {text : List Char}
    (sound : (scanUnsigned negative text).1.shapeBreakage = none) :
    scanUnsigned negative (text ++ rest) =
      ((scanUnsigned negative text).1, (scanUnsigned negative text).2 ++ rest) := by
  simp only [scanUnsigned, scanDigits_append apart] at sound ⊢
  generalize (scanDigits text).1 = digits at sound ⊢
  generalize (scanDigits text).2 = left at sound ⊢
  match digits with
  | [] => cases sound
  | '0' :: _ :: _ => rfl
  | ['0'] => exact scanFraction_append apart sound
  | c :: more =>
    split
    · contradiction
    · rfl
    · split at sound
      · contradiction
      · contradiction
      · exact scanFraction_append apart sound

end Behind

/-- A number ends where the printer goes on. -/
theorem scanNumber_append (apart : Apart rest) {text : List Char}
    (sound : (scanNumber text).1.shapeBreakage = none) :
    scanNumber (text ++ rest) = ((scanNumber text).1, (scanNumber text).2 ++ rest) := by
  match text with
  | [] => cases sound
  | '-' :: digits => exact scanUnsigned_append apart sound
  | c :: digits =>
    by_cases minus : c = '-'
    · subst minus
      exact scanUnsigned_append apart sound
    · rw [scanNumber_of_ne minus] at sound
      rw [List.cons_append, scanNumber_of_ne minus, scanNumber_of_ne minus, ← List.cons_append]
      exact scanUnsigned_append apart sound

/-- The token of a text that starts with a sign or a digit. -/
theorem tokens_eq_scanNumber {c : Char} {more : List Char} (starts : c = '-' ∨ c.isDigit = true) :
    tokens (c :: more) = .atom (scanNumber (c :: more)).1 :: tokens (scanNumber (c :: more)).2 := by
  rcases starts with rfl | digit
  · rw [tokens, if_neg (by decide), dif_neg (by decide)]
    rfl
  · have space : isSpace c = false := by
      simp only [isSpace, Bool.or_eq_false_iff, decide_eq_false_iff_not]
      refine ⟨⟨⟨?_, ?_⟩, ?_⟩, ?_⟩ <;> rintro rfl <;> cases digit
    rw [tokens, if_neg (by simp [space]), dif_pos digit, scanNumber_of_isDigit digit]

theorem starts_of_scanNumber {text : List Char}
    (sound : (scanNumber text).1.shapeBreakage = none) :
    ∃ c more, text = c :: more ∧ (c = '-' ∨ c.isDigit = true) := by
  match text with
  | [] => cases sound
  | c :: more =>
    refine ⟨c, more, rfl, ?_⟩
    by_cases minus : c = '-'
    · exact .inl minus
    · cases digit : c.isDigit with
      | true => exact .inr rfl
      | false =>
        rw [scanNumber_of_ne minus] at sound
        simp [scanUnsigned, scanDigits, digit, dead, Datum.shapeBreakage] at sound

/-- The token of a number in front of what the printer goes on with. -/
theorem tokens_number (apart : Apart rest) {text : List Char} {datum : Datum}
    (scanned : scanNumber text = (datum, [])) (sound : datum.shapeBreakage = none) :
    tokens (text ++ rest) = .atom datum :: tokens rest := by
  rw [← show (scanNumber text).1 = datum from congrArg Prod.fst scanned] at sound
  have whole := scanNumber_append apart sound
  obtain ⟨c, more, rfl, starts⟩ := starts_of_scanNumber sound
  rw [List.cons_append, tokens_eq_scanNumber starts, ← List.cons_append, whole, scanned,
    List.nil_append]

/-! ## Integers -/

theorem head?_toDigits {n : Nat} (positive : 0 < n) : (Nat.toDigits 10 n).head? ≠ some '0' := by
  induction n using Nat.strongRecOn with
  | ind n ih =>
    by_cases small : n < 10
    · rw [Nat.toDigits_of_lt_base small]
      have : ∀ d < 10, 0 < d → Nat.digitChar d ≠ '0' := by decide
      simpa using this n small positive
    · have before := ih (n / 10) (by omega) (by omega)
      obtain ⟨c, more, eq⟩ := List.exists_cons_of_ne_nil (Nat.toDigits_ne_nil (n := n / 10) (b := 10))
      rw [Nat.toDigits_of_base_le (by decide) (Nat.le_of_not_lt small), eq]
      rwa [eq] at before

/-- A natural number is written without a zero in front. -/
theorem toDigits_ne_zero_cons (n : Nat) (c : Char) (more : List Char) :
    Nat.toDigits 10 n ≠ '0' :: c :: more := by
  intro eq
  rcases Nat.eq_zero_or_pos n with rfl | positive
  · cases eq
  · exact head?_toDigits positive (by rw [eq]; rfl)

theorem scanDigits_of_isDigit {digits : List Char} (all : ∀ c ∈ digits, c.isDigit = true) :
    scanDigits digits = (digits, []) := by
  induction digits with
  | nil => rfl
  | cons c digits ih => simp_all [scanDigits]

theorem scanDigits_toDigits (n : Nat) :
    scanDigits (Nat.toDigits 10 n) = (Nat.toDigits 10 n, []) :=
  scanDigits_of_isDigit fun _ => Nat.isDigit_of_mem_toDigits (by decide) (by decide)

theorem le_ofDigitChars (digits : List Char) (start : Nat) :
    start ≤ Nat.ofDigitChars 10 digits start := by
  induction digits generalizing start with
  | nil => exact Nat.le_refl _
  | cons c digits ih =>
    rw [Nat.ofDigitChars_cons]
    exact Nat.le_trans (by omega) (ih _)

/-- The significand of a number that fits into 64 bits uses all digits. -/
theorem significandOf_eq {digits : List Char} {start count : Nat}
    (fits : Nat.ofDigitChars 10 digits start ≤ greatestNatural) :
    significandOf start count digits =
      (Nat.ofDigitChars 10 digits start, count + digits.length) := by
  induction digits generalizing start count with
  | nil => rfl
  | cons c digits ih =>
    rw [Nat.ofDigitChars_cons, Nat.mul_comm] at fits ⊢
    have step := Nat.le_trans (le_ofDigitChars digits _) fits
    rw [significandOf, if_neg (Nat.not_lt.mpr step), ih fits, List.length_cons, Nat.add_assoc,
      Nat.add_comm 1]

/-- The integers that a JSON number can give. -/
def Representable (n : Int) : Prop := -greatestNegative ≤ n ∧ n ≤ greatestNatural

theorem representable_toInt (value : Int64) : Representable value.toInt := by
  have low := value.le_toInt
  have high := value.toInt_le
  constructor
  · exact Int.le_trans (by decide) low
  · exact Int.le_trans high (by decide)

theorem scanUnsigned_toDigits (negative : Bool) (n : Nat) :
    scanUnsigned negative (Nat.toDigits 10 n) =
      (NumberText.value ⟨negative, Nat.toDigits 10 n, none, none⟩, []) := by
  simp only [scanUnsigned, scanDigits_toDigits]
  split
  · next none => exact absurd none Nat.toDigits_ne_nil
  · next eq => exact absurd eq (toDigits_ne_zero_cons _ _ _)
  · rfl

theorem value_toDigits {negative : Bool} {n : Nat} (fits : n ≤ greatestNatural)
    (signed : negative = true → 0 < n ∧ n ≤ greatestNegative) :
    NumberText.value ⟨negative, Nat.toDigits 10 n, none, none⟩ =
      .integer (if negative then -(n : Int) else n) := by
  have whole : significandOf 0 0 (Nat.toDigits 10 n) = (n, (Nat.toDigits 10 n).length) := by
    rw [significandOf_eq (by rwa [Nat.ofDigitChars_ten_toDigits]), Nat.ofDigitChars_ten_toDigits,
      Nat.zero_add]
  have fine : (!negative || (decide (0 < n) && decide (n ≤ greatestNegative))) = true := by
    cases negative with
    | false => rfl
    | true => simpa using signed rfl
  simp only [NumberText.value, whole, Nat.sub_self, Option.isNone_none, Bool.and_self, decide_true,
    fine, if_true]

theorem scanNumber_integerText {n : Int} (representable : Representable n) :
    scanNumber (integerText n) = (.integer n, []) := by
  obtain ⟨low, high⟩ := representable
  unfold integerText
  split
  · next negative =>
    have small : n.natAbs ≤ greatestNegative := by omega
    rw [scanNumber, scanUnsigned_toDigits,
      value_toDigits (Nat.le_trans small (by decide)) fun _ => ⟨by omega, small⟩, if_pos rfl]
    congr
    omega
  · next positive =>
    obtain ⟨c, more, eq⟩ :=
      List.exists_cons_of_ne_nil (Nat.toDigits_ne_nil (n := n.natAbs) (b := 10))
    have digit : c.isDigit = true :=
      Nat.isDigit_of_mem_toDigits (by decide) (by decide) (eq ▸ List.mem_cons_self)
    rw [eq, scanNumber_of_isDigit digit, ← eq, scanUnsigned_toDigits,
      value_toDigits (by omega) (by simp), if_neg (by simp)]
    congr
    omega

theorem tokens_integerText (apart : Apart rest) {n : Int} (representable : Representable n) :
    tokens (integerText n ++ rest) = .atom (.integer n) :: tokens rest :=
  tokens_number apart (scanNumber_integerText representable) rfl

end LlvmBackend.Json
