import LlvmBackend.Proofs.Json.Library
import LlvmBackend.Proofs.Json.Literals

/-! # Floating-point numbers in JSON texts

Whether a finite number comes back from its shortest decimal is a matter of rounding
(`Library.Rereads`).
That the decimal is taken as one number, whatever the printer puts behind it, is not: it holds no
blank, so that nothing of it is left over. Main statement: `tokens_floatText`.
-/

namespace LlvmBackend.Json

/-- What the JSON text of a number says. -/
def reread (x : Binary64) : Datum := (document (floatText x)).root

theorem parse_print_float (x : Binary64) :
    standard.parse (standard.print (.float x)) = document (floatText x) := by
  simp only [standard, pretty, prettyText, String.toList_ofList]

/-- The characters of a number. -/
def Numeral (c : Char) : Prop := c.isDigit = true ∨ c ∈ ['.', 'e', '+', '-']

theorem Numeral.not_isSpace {c : Char} (numeral : Numeral c) : isSpace c = false := by
  rcases numeral with digit | sign
  · simp only [isSpace, Bool.or_eq_false_iff, decide_eq_false_iff_not]
    refine ⟨⟨⟨?_, ?_⟩, ?_⟩, ?_⟩ <;> rintro rfl <;> cases digit
  · simp only [List.mem_cons, List.not_mem_nil, or_false] at sign
    rcases sign with rfl | rfl | rfl | rfl <;> rfl

theorem numeral_of_mem_toDigits {n : Nat} {c : Char} (mem : c ∈ Nat.toDigits 10 n) : Numeral c :=
  .inl (Nat.isDigit_of_mem_toDigits (by decide) (by decide) mem)

theorem numeral_of_mem_positionalText {digits : List Char} {leading : Int} {c : Char}
    (numerals : ∀ c ∈ digits, Numeral c)
    (mem : c ∈ DecimalLayout.positionalText digits leading) : Numeral c := by
  have zero : Numeral '0' := .inl rfl
  have point : Numeral '.' := .inr (by simp)
  unfold DecimalLayout.positionalText at mem
  dsimp only at mem
  split at mem
  · simp only [List.mem_append, List.mem_cons, List.not_mem_nil, or_false,
      List.mem_replicate] at mem
    rcases mem with ((rfl | rfl) | ⟨-, rfl⟩) | mem
    · exact zero
    · exact point
    · exact zero
    · exact numerals c mem
  · simp only [List.mem_append, List.mem_cons, List.not_mem_nil, or_false,
      List.mem_replicate] at mem
    rcases mem with ((mem | ⟨-, rfl⟩) | rfl) | mem
    · exact numerals c (List.mem_of_mem_take mem)
    · exact zero
    · exact point
    · split at mem
      · rwa [List.mem_singleton.mp mem]
      · exact numerals c (List.mem_of_mem_drop mem)

theorem numeral_of_mem_scientificText {digits : List Char} {leading : Int} {c : Char}
    (numerals : ∀ c ∈ digits, Numeral c)
    (mem : c ∈ DecimalLayout.scientificText digits leading) : Numeral c := by
  simp only [DecimalLayout.scientificText, List.mem_append, List.mem_cons, List.not_mem_nil,
    or_false] at mem
  rcases mem with ((mem | mem) | rfl | rfl) | mem
  · exact numerals c (List.mem_of_mem_take mem)
  · split at mem
    · cases mem
    · rcases List.mem_cons.mp mem with rfl | mem
      · exact .inr (by simp)
      · exact numerals c (List.mem_of_mem_drop mem)
  · exact .inr (by simp)
  · split <;> exact .inr (by simp)
  · exact numeral_of_mem_toDigits mem

theorem numeral_of_mem_finiteText {layout : DecimalLayout} {x : Binary64} {c : Char}
    (mem : c ∈ layout.finiteText x) : Numeral c := by
  have sign : c ∈ (if x.isNegative then ['-'] else []) → Numeral c := by
    split
    · intro mem
      rw [List.mem_singleton.mp mem]
      exact .inr (by simp)
    · nofun
  have numerals : ∀ c ∈ x.shortest.digitText, Numeral c := fun _ => numeral_of_mem_toDigits
  dsimp only [DecimalLayout.finiteText] at mem
  by_cases zero : x.isZero
  · rw [if_pos zero] at mem
    rcases List.mem_append.mp mem with mem | mem
    · exact sign mem
    · simp only [List.mem_cons, List.not_mem_nil, or_false] at mem
      rcases mem with rfl | rfl | rfl
      · exact .inl rfl
      · exact .inr (by simp)
      · exact .inl rfl
  · rw [if_neg zero] at mem
    rcases List.mem_append.mp mem with mem | mem
    · exact sign mem
    · split at mem
      · exact numeral_of_mem_positionalText numerals mem
      · exact numeral_of_mem_scientificText numerals mem

theorem scanSign_suffix (input : List Char) : (scanSign input).2 <:+ input := by
  unfold scanSign
  split
  · exact List.suffix_cons ..
  · exact List.suffix_cons ..
  · exact List.suffix_rfl

theorem scanDigits_suffix (input : List Char) : (scanDigits input).2 <:+ input :=
  List.dropWhile_suffix _

theorem scanPower_suffix (number : NumberText) (input : List Char) :
    (scanPower number input).2 <:+ input := by
  unfold scanPower
  split
  · next c more =>
    split
    · dsimp only
      split <;>
        exact ((scanDigits_suffix _).trans (scanSign_suffix more)).trans (List.suffix_cons c more)
    · exact List.suffix_rfl
  · exact List.suffix_rfl

theorem scanFraction_suffix (number : NumberText) (input : List Char) :
    (scanFraction number input).2 <:+ input := by
  unfold scanFraction
  split
  · next more =>
    have behind := (scanDigits_suffix more).trans (List.suffix_cons '.' more)
    dsimp only
    split
    · exact behind
    · exact (scanPower_suffix _ _).trans behind
  · exact scanPower_suffix _ _

theorem scanUnsigned_suffix (negative : Bool) (input : List Char) :
    (scanUnsigned negative input).2 <:+ input := by
  unfold scanUnsigned
  dsimp only
  split
  · exact scanDigits_suffix _
  · exact scanDigits_suffix _
  · exact (scanFraction_suffix _ _).trans (scanDigits_suffix _)

theorem scanNumber_suffix (input : List Char) : (scanNumber input).2 <:+ input := by
  unfold scanNumber
  split
  · exact (scanUnsigned_suffix _ _).trans (List.suffix_cons ..)
  · exact scanUnsigned_suffix _ _

/-! ## The token of a number -/

theorem tokens_ne_nil {c : Char} (ink : isSpace c = false) (more : List Char) :
    tokens (c :: more) ≠ [] := by
  rw [tokens, if_neg (by simp [ink])]
  split <;> exact List.cons_ne_nil _ _

/-- A numeral that stands alone: either all of it says nothing, or it starts with a number. -/
theorem document_numeral {c : Char} (numeral : Numeral c) (more : List Char) :
    document (c :: more) = broken [] .malformed ∨
      document (c :: more) =
        build .value [] (.atom (scanNumber (c :: more)).1 :: tokens (scanNumber (c :: more)).2) := by
  by_cases starts : c = '-' ∨ c.isDigit = true
  · exact .inr (by rw [document, tokens_eq_scanNumber starts])
  · rw [not_or] at starts
    have other : c = '.' ∨ c = 'e' ∨ c = '+' := by
      rcases numeral with digit | sign
      · exact absurd digit starts.2
      · simpa [starts.1] using sign
    rw [document, tokens, if_neg (by simp [numeral.not_isSpace]), dif_neg starts.2]
    rcases other with rfl | rfl | rfl <;> exact .inl rfl

/-- Goes on after a value: into its container, or to the end of the text. -/
def settle (datum : Datum) (stack : List Open) (rest : List Token) : Document :=
  match stack with
  | [] => ⟨datum, !rest.isEmpty⟩
  | stack => build .next (give datum stack) rest

/-- A value may come next. -/
def Expecting.Ready (expecting : Expecting) : Prop := expecting = .value ∨ expecting = .firstItem

theorem build_atom {expecting : Expecting} (ready : expecting.Ready) {datum : Datum}
    (sound : datum.shapeBreakage = none) (stack : List Open) (rest : List Token) :
    build expecting stack (.atom datum :: rest) = settle datum stack rest := by
  cases datum with
  | broken reading skipping =>
    cases sound
    rcases ready with rfl | rfl <;> cases stack <;> rfl
  | _ => rcases ready with rfl | rfl <;> cases stack <;> rfl

theorem root_build_value_atom (datum : Datum) (rest : List Token) :
    (build .value [] (.atom datum :: rest)).root = datum := by
  cases datum with
  | broken reading skipping => cases skipping <;> rfl
  | _ => rfl

section Reread

variable {x : Binary64}

theorem document_floatText (rereads : standard.Rereads x) :
    ∃ y, (reread x).asFloat = .ok y ∧ y.same x ∧ (document (floatText x)).trailing = false := by
  obtain ⟨y, found, same⟩ := rereads
  rw [Library.read_eq_ok_iff, parse_print_float] at found
  exact ⟨y, found.1, same, found.2⟩

/-- The whole text of a number is one number. -/
theorem scanNumber_floatText (rereads : standard.Rereads x) (finite : x.isFinite) :
    scanNumber (floatText x) = (reread x, []) := by
  obtain ⟨y, found, -, ended⟩ := document_floatText rereads
  have numerals : ∀ c ∈ floatText x, Numeral c := by
    rw [floatText, if_pos finite]
    exact fun _ => numeral_of_mem_finiteText
  rw [reread] at found ⊢
  generalize floatText x = text at found ended numerals
  cases text with
  | nil =>
    rw [document, tokens] at found
    cases found
  | cons c more =>
    rcases document_numeral (numerals c List.mem_cons_self) more with none | number
    · rw [none] at found
      cases found
    · have root := root_build_value_atom (scanNumber (c :: more)).1
        (tokens (scanNumber (c :: more)).2)
      rw [← number] at root
      rw [root] at found ⊢
      rw [number, build_atom (.inl rfl) (Datum.shapeBreakage_of_asFloat found)] at ended
      refine Prod.ext rfl ?_
      -- What is left over would give a token of its own.
      cases left : (scanNumber (c :: more)).2 with
      | nil => rfl
      | cons d behind =>
        have mem : d ∈ c :: more :=
          (scanNumber_suffix (c :: more)).subset (left ▸ List.mem_cons_self)
        rw [left] at ended
        exact absurd (by simpa [settle] using ended) (tokens_ne_nil (numerals d mem).not_isSpace behind)

theorem tokens_floatText (rereads : standard.Rereads x) (finite : x.isFinite) {rest : List Char}
    (apart : Apart rest) : tokens (floatText x ++ rest) = .atom (reread x) :: tokens rest :=
  have ⟨_, found, _⟩ := document_floatText rereads
  tokens_number apart (scanNumber_floatText rereads finite) (Datum.shapeBreakage_of_asFloat found)

end Reread

/-- The number at the front of the JSON text of `x` is all of it, and equal to `x`. -/
def comesBack (x : Binary64) : Bool :=
  match scanNumber (floatText x) with
  | (.float y, []) => y.same x
  | _ => false

theorem rereads_of_comesBack {x : Binary64} (back : comesBack x = true) : standard.Rereads x := by
  unfold comesBack at back
  split at back
  · next y scanned =>
    have token : tokens (floatText x ++ []) = .atom (.float y) :: tokens [] :=
      tokens_number (by simp [Apart]) scanned rfl
    refine ⟨y, ?_, back⟩
    rw [List.append_nil] at token
    rw [Library.read_eq_ok_iff, parse_print_float, document, token, tokens]
    exact ⟨rfl, rfl⟩
  · cases back

/-- The reader rounds the digits and the power of ten apart, so that some numbers of seventeen
digits, like 1.2653852959177379, come back as a neighbour. -/
example : comesBack ⟨4608377607919822141⟩ = false := by decide +kernel

end LlvmBackend.Json
