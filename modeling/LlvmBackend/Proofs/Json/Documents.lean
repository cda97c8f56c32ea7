import LlvmBackend.Proofs.Json.Floats

/-! # The standard library gives data back

The printer and the reader keep what is assumed of a library: strings and integers come back, and so
do containers, as long as not more than 127 of them stand inside each other. Floating-point numbers
come back one by one, or not. Main statements: `standard_rereadsNumbers`, `standard_rereadsStrings`
and `standard_rereadsNested`.
-/

namespace LlvmBackend

namespace Json

/-! ## Punctuation and blanks -/

section Punctuation

variable (rest : List Char)

@[simp] theorem tokens_openList : tokens ('[' :: rest) = .openList :: tokens rest := by
  rw [tokens, if_neg (by decide), dif_neg (by decide)]
  rfl

@[simp] theorem tokens_closeList : tokens (']' :: rest) = .closeList :: tokens rest := by
  rw [tokens, if_neg (by decide), dif_neg (by decide)]
  rfl

@[simp] theorem tokens_openRecord : tokens ('\x7b' :: rest) = .openRecord :: tokens rest := by
  rw [tokens, if_neg (by decide), dif_neg (by decide)]
  rfl

@[simp] theorem tokens_closeRecord : tokens ('\x7d' :: rest) = .closeRecord :: tokens rest := by
  rw [tokens, if_neg (by decide), dif_neg (by decide)]
  rfl

@[simp] theorem tokens_comma : tokens (',' :: rest) = .comma :: tokens rest := by
  rw [tokens, if_neg (by decide), dif_neg (by decide)]
  rfl

@[simp] theorem tokens_colon : tokens (':' :: rest) = .colon :: tokens rest := by
  rw [tokens, if_neg (by decide), dif_neg (by decide)]
  rfl

@[simp] theorem tokens_space : tokens (' ' :: rest) = tokens rest := by
  rw [tokens, if_pos (by decide)]

@[simp] theorem tokens_newLine (depth : Nat) : tokens (newLine depth ++ rest) = tokens rest := by
  have blanks (count : Nat) : tokens (List.replicate count ' ' ++ rest) = tokens rest := by
    induction count with
    | zero => rfl
    | succ count ih => rw [List.replicate_succ, List.cons_append, tokens_space, ih]
  rw [newLine, List.cons_append, tokens, if_pos (by decide), blanks]

end Punctuation

theorem apart_newLine (depth : Nat) (rest : List Char) : Apart (newLine depth ++ rest) := by
  intro c mem
  exact .inr (Option.some.inj mem).symm

theorem apart_prettyItems (depth close : Nat) (items : List Datum) (rest : List Char) :
    Apart (prettyItems depth items ++ (newLine close ++ rest)) := by
  cases items with
  | nil => exact apart_newLine _ _
  | cons item items =>
    intro c mem
    rw [prettyItems] at mem
    exact .inl (Option.some.inj mem).symm

theorem apart_prettyMembers (depth close : Nat) (members : List (String × Datum))
    (rest : List Char) : Apart (prettyMembers depth members ++ (newLine close ++ rest)) := by
  cases members with
  | nil => exact apart_newLine _ _
  | cons member members =>
    intro c mem
    rw [prettyMembers] at mem
    exact .inl (Option.some.inj mem).symm

/-! ## Building values -/

section Steps

variable {outer : List Open} {rest : List Token}

theorem build_text {expecting : Expecting} (ready : expecting.Ready) (s : String)
    (stack : List Open) :
    build expecting stack (.text (.string s) :: rest) = settle (.string s) stack rest := by
  rcases ready with rfl | rfl <;> cases stack <;> rfl

theorem build_openList {expecting : Expecting} (ready : expecting.Ready) (stack : List Open) :
    build expecting stack (.openList :: rest) = build .firstItem (.list [] :: stack) rest := by
  rcases ready with rfl | rfl <;> rfl

theorem build_openRecord {expecting : Expecting} (ready : expecting.Ready) (stack : List Open) :
    build expecting stack (.openRecord :: rest) = build .firstName (.record [] "" :: stack) rest := by
  rcases ready with rfl | rfl <;> rfl

theorem sealed_of_lt (shallow : outer.length < deepest) (datum : Datum) :
    sealed outer datum = datum :=
  if_pos shallow

/-- A container that does not stand too deep is a value once it is closed. -/
theorem build_closeList (shallow : outer.length < deepest) (before : List Datum) :
    build .next (.list before :: outer) (.closeList :: rest) =
      settle (.list before.reverse) outer rest := by
  cases outer <;> simp only [build, sealed_of_lt shallow, settle, Open.closed]

theorem build_closeRecord (shallow : outer.length < deepest) (before : List (String × Datum)) :
    build .next (.record before "" :: outer) (.closeRecord :: rest) =
      settle (.record before.reverse) outer rest := by
  cases outer <;> simp only [build, sealed_of_lt shallow, settle, Open.closed]

theorem build_emptyList (shallow : outer.length < deepest) :
    build .firstItem (.list [] :: outer) (.closeList :: rest) = settle (.list []) outer rest := by
  cases outer <;> simp only [build, sealed_of_lt shallow, settle, Open.closed, List.reverse_nil]

theorem build_emptyRecord (shallow : outer.length < deepest) :
    build .firstName (.record [] "" :: outer) (.closeRecord :: rest) =
      settle (.record []) outer rest := by
  cases outer <;> simp only [build, sealed_of_lt shallow, settle, Open.closed, List.reverse_nil]

end Steps

/-! ## The text of a datum -/

mutual

/-- The text of a datum builds what it says. -/
theorem build_prettyText : ∀ (datum : Datum) (depth : Nat) {stack : List Open}
    {expecting : Expecting} {rest : List Char}, standard.Legible datum →
    stack.length + datum.nesting ≤ deepest → Apart rest → expecting.Ready →
    build expecting stack (tokens (prettyText depth datum ++ rest)) =
      settle (standard.echo datum) stack (tokens rest)
  | .null, _, _, _, _, _, _, _, ready => by
    rw [prettyText, tokens_null, build_atom ready rfl, Library.echo]
    all_goals nofun
  | .bool _, _, _, _, _, _, _, _, ready => by
    rw [prettyText, tokens_bool, build_atom ready rfl, Library.echo]
    all_goals nofun
  | .integer _, _, _, _, _, ⟨value, is⟩, _, apart, ready => by
    subst is
    rw [prettyText, tokens_integerText apart (representable_toInt value), build_atom ready rfl,
      Library.echo]
    all_goals nofun
  | .float x, _, _, _, _, ⟨finite, rereads⟩, _, apart, ready => by
    have ⟨_, found, _⟩ := document_floatText rereads
    rw [prettyText, tokens_floatText rereads finite apart,
      build_atom ready (Datum.shapeBreakage_of_asFloat found), Library.echo, Library.reread,
      parse_print_float, reread]
  | .string s, _, _, _, _, _, _, _, ready => by
    rw [prettyText, tokens_stringText, build_text ready, Library.echo]
    all_goals nofun
  | .list [], _, _, _, _, _, shallow, _, ready => by
    simp only [prettyText, List.cons_append, List.nil_append, tokens_openList, tokens_closeList]
    rw [build_openList ready, build_emptyList shallow, Library.echo, Library.echoItems]
  | .list (item :: items), depth, stack, _, rest, ⟨legible, others⟩, shallow, _, ready => by
    simp only [Datum.nesting, Datum.nestingOfItems] at shallow
    have inside : (Open.list [] :: stack).length + item.nesting ≤ deepest := by
      simp only [List.length_cons]
      omega
    have behind : stack.length + 1 + Datum.nestingOfItems items ≤ deepest := by omega
    simp only [prettyText, List.append_assoc, List.cons_append, List.nil_append, tokens_openList,
      tokens_newLine]
    rw [build_openList ready, build_prettyText item (depth + 1) legible inside
      (apart_prettyItems _ _ _ _) (.inr rfl)]
    exact build_prettyItems items (depth + 1) others behind
  | .record [], _, _, _, _, _, shallow, _, ready => by
    simp only [prettyText, List.cons_append, List.nil_append, tokens_openRecord, tokens_closeRecord]
    rw [build_openRecord ready, build_emptyRecord shallow, Library.echo, Library.echoMembers]
  | .record ((name, item) :: members), depth, stack, _, rest, ⟨legible, others⟩, shallow, _,
      ready => by
    simp only [Datum.nesting, Datum.nestingOfMembers] at shallow
    have inside : (Open.record [] name :: stack).length + item.nesting ≤ deepest := by
      simp only [List.length_cons]
      omega
    have behind : stack.length + 1 + Datum.nestingOfMembers members ≤ deepest := by omega
    simp only [prettyText, List.append_assoc, List.cons_append, List.nil_append, tokens_openRecord,
      tokens_newLine, tokens_stringText, tokens_colon, tokens_space]
    rw [build_openRecord ready]
    simp only [build]
    rw [build_prettyText item (depth + 1) legible inside (apart_prettyMembers _ _ _ _) (.inl rfl)]
    exact build_prettyMembers members (depth + 1) others behind

/-- The items after the first and the end of the list build the whole list. -/
theorem build_prettyItems : ∀ (items : List Datum) (depth : Nat) {close : Nat}
    {before : List Datum} {outer : List Open} {rest : List Char}, standard.LegibleItems items →
    outer.length + 1 + Datum.nestingOfItems items ≤ deepest →
    build .next (.list before :: outer)
        (tokens (prettyItems depth items ++ (newLine close ++ ']' :: rest))) =
      settle (.list (before.reverse ++ standard.echoItems items)) outer (tokens rest)
  | [], _, _, _, _, _, _, shallow => by
    simp only [prettyItems, List.nil_append, tokens_newLine, tokens_closeList]
    rw [build_closeList shallow, Library.echoItems, List.append_nil]
  | item :: items, depth, _, before, outer, _, ⟨legible, others⟩, shallow => by
    simp only [Datum.nestingOfItems] at shallow
    have inside : (Open.list before :: outer).length + item.nesting ≤ deepest := by
      simp only [List.length_cons]
      omega
    have behind : outer.length + 1 + Datum.nestingOfItems items ≤ deepest := by omega
    simp only [prettyItems, List.append_assoc, List.cons_append, List.nil_append, tokens_comma,
      tokens_newLine, build]
    rw [build_prettyText item depth legible inside (apart_prettyItems _ _ _ _) (.inl rfl)]
    simp only [settle, give]
    rw [build_prettyItems items depth others behind, List.reverse_cons, List.append_assoc,
      Library.echoItems]
    rfl

/-- The members after the first and the end of the record build the whole record. -/
theorem build_prettyMembers : ∀ (members : List (String × Datum)) (depth : Nat) {close : Nat}
    {before : List (String × Datum)} {outer : List Open} {rest : List Char},
    standard.LegibleMembers members → outer.length + 1 + Datum.nestingOfMembers members ≤ deepest →
    build .next (.record before "" :: outer)
        (tokens (prettyMembers depth members ++ (newLine close ++ '\x7d' :: rest))) =
      settle (.record (before.reverse ++ standard.echoMembers members)) outer (tokens rest)
  | [], _, _, _, _, _, _, shallow => by
    simp only [prettyMembers, List.nil_append, tokens_newLine, tokens_closeRecord]
    rw [build_closeRecord shallow, Library.echoMembers, List.append_nil]
  | (name, item) :: members, depth, _, before, outer, _, ⟨legible, others⟩, shallow => by
    simp only [Datum.nestingOfMembers] at shallow
    have inside : (Open.record before name :: outer).length + item.nesting ≤ deepest := by
      simp only [List.length_cons]
      omega
    have behind : outer.length + 1 + Datum.nestingOfMembers members ≤ deepest := by omega
    simp only [prettyMembers, List.append_assoc, List.cons_append, List.nil_append, tokens_comma,
      tokens_newLine, tokens_stringText, tokens_colon, tokens_space, build]
    rw [build_prettyText item depth legible inside (apart_prettyMembers _ _ _ _) (.inl rfl)]
    simp only [settle, give]
    rw [build_prettyMembers members depth others behind, List.reverse_cons, List.append_assoc,
      Library.echoMembers]
    rfl

end

/-- A text that the printer wrote says the datum again, and nothing else. -/
theorem parse_pretty {datum : Datum} (legible : standard.Legible datum)
    (shallow : datum.nesting ≤ deepest) :
    standard.parse (standard.print datum) = ⟨standard.echo datum, false⟩ := by
  have built : build .value [] (tokens (prettyText 0 datum ++ [])) =
      settle (standard.echo datum) [] (tokens []) :=
    build_prettyText datum 0 legible (by simpa using shallow) nofun (.inl rfl)
  simp only [standard, pretty, String.toList_ofList]
  rw [List.append_nil] at built
  rw [document, built, tokens]
  rfl

/-! ## The library -/

theorem standard_rereadsStrings : standard.RereadsStrings :=
  fun s => parse_pretty (show standard.Legible (.string s) from trivial) (Nat.zero_le _)

theorem standard_rereadsNumbers {floats : List Binary64}
    (back : ∀ x ∈ floats, comesBack x = true) : standard.RereadsNumbers floats where
  integers value :=
    parse_pretty (show standard.Legible (.integer value.toInt) from ⟨value, rfl⟩) (Nat.zero_le _)
  floats x mem _ := rereads_of_comesBack (back x mem)

theorem standard_rereadsNested : standard.RereadsNested 127 := by
  intro datum legible shallow
  have none : standard.RereadsNumbers [] := standard_rereadsNumbers (by simp)
  rw [Library.rereadParts_eq_echo none standard_rereadsStrings datum legible]
  exact parse_pretty legible shallow

end Json

end LlvmBackend
