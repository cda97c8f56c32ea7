import LlvmBackend.Proofs.Drafts
import Mathlib.Logic.Equiv.Defs

/-! # Order of functions

The functions of a module can stand in any order: the code of each is the same but for the numbers
of literals, which change in one way for the whole module. Main statement:
`Codegen.generate_perm`.
-/

namespace LlvmBackend

open Ir

/-! ## Exchange of numbers -/

/-- Exchanges two rows of numbers that follow one another. -/
def exchanged (n first second k : Nat) : Nat :=
  if k < n then k
  else if k < n + first then k + second
  else if k < n + first + second then k - first
  else k

theorem exchanged_exchanged (n first second k : Nat) :
    exchanged n second first (exchanged n first second k) = k := by
  unfold exchanged
  split_ifs <;> omega

def exchange (n first second : Nat) : Equiv.Perm Nat where
  toFun := exchanged n first second
  invFun := exchanged n second first
  left_inv := exchanged_exchanged n first second
  right_inv := exchanged_exchanged n second first

theorem exchange_of_lt {n first second k : Nat} (lt : k < n) : exchange n first second k = k :=
  if_pos lt

theorem exchange_first {n first k : Nat} (second : Nat) (lt : k < first) :
    exchange n first second (n + k) = n + second + k := by
  show exchanged n first second (n + k) = _
  unfold exchanged
  split_ifs <;> omega

theorem exchange_second {n first second k : Nat} (lt : k < second) :
    exchange n first second (n + first + k) = n + k := by
  show exchanged n first second (n + first + k) = _
  unfold exchanged
  split_ifs <;> omega

theorem exchange_of_ge {n first second k : Nat} (ge : n + first + second ≤ k) :
    exchange n first second k = k := by
  show exchanged n first second k = _
  unfold exchanged
  split_ifs <;> omega

/-! ## Drafts in another order -/

namespace Draft

variable {types : Registry} {signatures : SignatureTable} {entry : String}

/-- A function keeps its place in front of numbers that are changed. -/
theorem renumber_shifted (draft : Draft types signatures entry) {n m : Nat}
    {number : Equiv.Perm Nat} (shifts : ∀ k < draft.count, number (n + k) = m + k) :
    (draft.placed (n + ·)).renumber number = draft.placed (m + ·) := by
  rw [renumber_placed]
  exact draft.placed_eq (number.injective.comp (shift_injective n)) shifts

theorem renumber_place {n : Nat} {number : Equiv.Perm Nat} (fixed : ∀ k, n ≤ k → number k = k)
    (drafts : List (Draft types signatures entry)) :
    (place n drafts).map (·.renumber number) = place n drafts := by
  induction drafts generalizing n with
  | nil => rfl
  | cons first rest ih =>
      have here : (first.placed (n + ·)).renumber number = first.placed (n + ·) :=
        first.renumber_shifted fun k _ => fixed _ (Nat.le_add_right n k)
      have others := ih (n := n + first.count) fun k le => fixed k (Nat.le_of_add_right_le le)
      simp only [place, List.map_cons, here, others]

/-- In another order functions get other numbers for their literals, and that is all. -/
theorem place_perm {drafts others : List (Draft types signatures entry)}
    (reordered : drafts.Perm others) (n : Nat) : ∃ number : Equiv.Perm Nat,
      (∀ k < n, number k = k) ∧
        ((place n drafts).map (·.renumber number)).Perm (place n others) := by
  induction reordered generalizing n with
  | nil => exact ⟨Equiv.refl Nat, fun _ _ => rfl, .nil⟩
  | @cons draft drafts others _ ih =>
      obtain ⟨number, fixed, perm⟩ := ih (n + draft.count)
      have here : (draft.placed (n + ·)).renumber number = draft.placed (n + ·) :=
        draft.renumber_shifted fun k lt => fixed _ (Nat.add_lt_add_left lt n)
      refine ⟨number, fun k lt => fixed k (Nat.lt_add_right _ lt), ?_⟩
      simp only [place, List.map_cons, here]
      exact perm.cons _
  | swap first second drafts =>
      refine ⟨exchange n second.count first.count, fun k lt => exchange_of_lt lt, ?_⟩
      have moved := second.renumber_shifted (n := n) (m := n + first.count) fun k lt =>
        exchange_first first.count lt
      have moved' := first.renumber_shifted (n := n + second.count) (m := n) fun k lt =>
        exchange_second lt
      have kept := renumber_place (n := n + second.count + first.count)
        (fun k le => exchange_of_ge le) drafts
      simp only [place, List.map_cons, moved, moved', kept, Nat.add_right_comm n first.count]
      exact List.Perm.swap _ _ _
  | trans _ _ ih ih' =>
      obtain ⟨number, fixed, perm⟩ := ih n
      obtain ⟨number', fixed', perm'⟩ := ih' n
      refine ⟨number.trans number', fun k lt => ?_, ?_⟩
      · rw [Equiv.trans_apply, fixed k lt, fixed' k lt]
      · have twice := perm.map (·.renumber number')
        simp only [List.map_map, Function.comp_def, Placed.renumber_renumber] at twice
        exact twice.trans perm'

end Draft

/-! ## Signatures and preambles -/

namespace SignatureTable

theorem enterAll_perm {functions others : List (String × Except CodegenError Signature)}
    (reordered : functions.Perm others) (distinct : (functions.map Prod.fst).Nodup)
    {table later : SignatureTable} (entered : enterAll table functions = .ok later) :
    enterAll table others = .ok later := by
  induction reordered generalizing table with
  | nil => exact entered
  | @cons function rest others _ ih =>
      obtain ⟨name, signature⟩ := function
      cases signature with
      | error error => cases entered
      | ok signature => exact ih (List.nodup_cons.mp distinct).2 entered
  | swap second first rest =>
      obtain ⟨name, signature⟩ := first
      obtain ⟨name', signature'⟩ := second
      have ne : name ≠ name' := by
        rintro rfl
        simp at distinct
      cases signature with
      | error error => cases entered
      | ok signature =>
          cases signature' with
          | error error => cases entered
          | ok signature' =>
              have entered : enterAll ((table.insert name signature).insert name' signature') rest =
                  .ok later := entered
              rw [NameMap.insert_comm table ne] at entered
              exact entered
  | trans first _ ih ih' =>
      exact ih' ((first.map Prod.fst).nodup_iff.mp distinct) (ih distinct entered)

/-- What can be called does not depend on the order of the functions. -/
theorem collect_perm {source permuted : Tree.Module} {types : Registry} {entry : String}
    (reordered : source.functions.Perm permuted.functions)
    (distinct : (source.functions.map (·.name)).Nodup) {signatures : SignatureTable}
    (collected : collect source types entry = .ok signatures) :
    collect permuted types entry = .ok signatures := by
  unfold collect at collected ⊢
  cases library : builtins types with
  | error error =>
      rw [library] at collected
      cases collected
  | ok table =>
      rw [library] at collected
      refine enterAll_perm ((reordered.filter _).map _) ?_ collected
      rw [List.map_map]
      exact distinct.sublist (List.filter_sublist.map _)

end SignatureTable

namespace Preamble

/-- Which declarations are left out depends on the symbols that are defined, not on their order. -/
theorem firstDeclarations_congr {defined others : List String}
    (same : ∀ symbol, symbol ∈ defined ↔ symbol ∈ others) (declarations : List Declaration) :
    firstDeclarations defined declarations = firstDeclarations others declarations := by
  induction declarations generalizing defined others with
  | nil => rfl
  | cons declaration rest ih =>
      simp only [firstDeclarations, same declaration.symbol]
      split
      · exact ih same
      · exact congrArg (declaration :: ·) (ih fun symbol => by simp only [List.mem_cons, same symbol])

end Preamble

namespace Codegen

variable {types : Registry}

theorem preamble_perm {signatures : SignatureTable} {options : CodegenOptions}
    {defined others : List String} (reordered : defined.Perm others) :
    preamble types signatures options defined = preamble types signatures options others := by
  unfold preamble
  split
  · rfl
  · simp only [Preamble.derive,
      Preamble.firstDeclarations_congr (fun symbol => reordered.mem_iff (a := symbol))]

/-! ## Modules -/

/-- The code of a module and the code of the module with its functions in another order: literals
    have other numbers, in one way throughout the module, and nothing else differs. -/
structure Reordered (sources permuted : List Tree.Function) (first second : Module) : Prop where
  triple : first.triple = second.triple
  preamble : first.preamble = second.preamble
  sizes : first.functions.length = sources.length ∧ second.functions.length = permuted.length
  renumbered : ∃ number : Equiv.Perm Nat,
    (∀ (i j : Nat) (source : Tree.Function), sources[i]? = some source →
      permuted[j]? = some source → ∃ lowered : Function, first.functions[i]? = some lowered ∧
        second.functions[j]? = some (lowered.rename (Pool.renumber number))) ∧
    (first.globals.map (·.rename (Pool.renumber number))).Perm second.globals

variable {options : CodegenOptions} {source permuted : Tree.Module}

theorem drafts_perm {signatures : SignatureTable}
    {drafts others : List (Draft types signatures options.entry)}
    (reordered : source.functions.Perm permuted.functions)
    (sources : drafts.map (·.source) = source.functions)
    (sources' : others.map (·.source) = permuted.functions) : drafts.Perm others := by
  rw [← sources, ← sources'] at reordered
  exact (List.map_perm_map_iff Draft.source_injective).mp reordered

section Placed

variable {signatures : SignatureTable} {entry : String}
  {drafts others : List (Draft types signatures entry)} {number : Nat → Nat}
  (placed : ((Draft.place 0 drafts).map (·.renumber number)).Perm (Draft.place 0 others))

include placed

theorem names_perm : (((Draft.place 0 drafts).map (·.lowered)).map (·.name)).Perm
    (((Draft.place 0 others).map (·.lowered)).map (·.name)) := by
  have names := placed.map (·.lowered.name)
  simp only [List.map_map, Function.comp_def, Placed.renumber, Function.rename] at names ⊢
  exact names

theorem constants_perm (reordered : drafts.Perm others) :
    ((constants drafts).map (·.rename (Pool.renumber number))).Perm (constants others) := by
  have numbered := placed.flatMap_right (·.constants)
  simp only [List.flatMap_map, Placed.renumber] at numbered
  have truths : (Pool.truths types).map (·.rename (Pool.renumber number)) = Pool.truths types := by
    simp [Pool.truths]
  simp only [constants, List.map_append, List.map_flatMap, reordered.any_eq]
  refine List.Perm.append ?_ numbered
  split
  · rw [truths]
  · exact .refl _

/-- Each function is found where it stands in the source. -/
theorem lowered_perm {sources permuted : List Tree.Function}
    (distinct : (permuted.map (·.name)).Nodup) (known : drafts.map (·.source) = sources)
    (known' : others.map (·.source) = permuted) {i j : Nat} {source : Tree.Function}
    (here : sources[i]? = some source) (there : permuted[j]? = some source) :
    ∃ lowered : Function, ((Draft.place 0 drafts).map (·.lowered))[i]? = some lowered ∧
      ((Draft.place 0 others).map (·.lowered))[j]? =
        some (lowered.rename (Pool.renumber number)) := by
  rw [← known, ← Draft.map_source_place 0, List.getElem?_map] at here
  obtain ⟨first, atI, rfl⟩ := Option.map_eq_some_iff.mp here
  have mem := placed.mem_iff.mp (List.mem_map_of_mem (List.mem_of_getElem? atI))
  obtain ⟨k, lt, atK⟩ := List.mem_iff_getElem.mp mem
  rw [← known', ← Draft.map_source_place 0] at distinct there
  have same : k = j := by
    have atK' : ((Draft.place 0 others).map (·.source))[k]? = some first.source := by
      simp [lt, atK, Placed.renumber]
    exact (List.getElem?_inj (by simpa using lt) (List.Nodup.of_map _ distinct)).mp
      (atK'.trans there.symm)
  subst same
  refine ⟨first.lowered, by simp [atI], ?_⟩
  simp [lt, atK, Placed.renumber]

end Placed

theorem Drafted.length {signatures : SignatureTable}
    {drafts : List (Draft types signatures options.entry)} {generated : Module}
    (drafted : Drafted types options source signatures drafts generated) :
    generated.functions.length = source.functions.length := by
  have sources := congrArg List.length (Draft.map_source_place 0 drafts)
  rw [drafted.functions, ← drafted.sources, ← sources, List.length_map, List.length_map]

/-- A module is generated in any order of its functions if it is in one. -/
theorem accepts_perm (distinct : (source.functions.map (·.name)).Nodup)
    (reordered : source.functions.Perm permuted.functions)
    (accepted : ∃ generated, (run (generate source types options)).1 = .ok generated) :
    ∃ generated, (run (generate permuted types options)).1 = .ok generated := by
  obtain ⟨generated, accepted⟩ := accepted
  obtain ⟨signatures, drafts, drafted⟩ := exists_drafted accepted
  obtain ⟨others, sources⟩ : ∃ others : List (Draft types signatures options.entry),
      others.map (·.source) = permuted.functions := by
    refine exists_drafts fun function mem => ?_
    rw [← reordered.mem_iff, ← drafted.sources] at mem
    obtain ⟨draft, _, rfl⟩ := List.mem_map.mp mem
    exact (function_accepts draft.source {}).mp ⟨_, _, draft.result⟩
  obtain ⟨number, _, placed⟩ := Draft.place_perm
    (drafts_perm reordered drafted.sources sources) 0
  have derived := drafted.preamble
  rw [drafted.functions, preamble_perm (names_perm placed)] at derived
  exact generate_drafts drafted.triple
    (SignatureTable.collect_perm reordered distinct drafted.collected) sources derived

/-- The order of the functions of a module does not matter: code is generated in one order if and
    only if it is in the other, and then the code of each function is the same but for the numbers of
    literals, which change in one way throughout the module, and so are the constants. -/
theorem generate_perm {source permuted : Tree.Module} (types : Registry)
    (options : CodegenOptions) (distinct : (source.functions.map (·.name)).Nodup)
    (reordered : source.functions.Perm permuted.functions) :
    ((∃ generated, (run (generate source types options)).1 = .ok generated) ↔
      ∃ generated, (run (generate permuted types options)).1 = .ok generated) ∧
    ∀ first second, (run (generate source types options)).1 = .ok first →
      (run (generate permuted types options)).1 = .ok second →
        Reordered source.functions permuted.functions first second := by
  have distinct' := (reordered.map (·.name)).nodup_iff.mp distinct
  refine ⟨⟨accepts_perm distinct reordered, accepts_perm distinct' reordered.symm⟩, ?_⟩
  intro first second accepted accepted'
  obtain ⟨signatures, drafts, drafted⟩ := exists_drafted accepted
  obtain ⟨signatures', others, drafted'⟩ := exists_drafted accepted'
  have collected := SignatureTable.collect_perm reordered distinct drafted.collected
  obtain rfl : signatures = signatures' :=
    Except.ok.inj (collected.symm.trans drafted'.collected)
  have perm := drafts_perm reordered drafted.sources drafted'.sources
  obtain ⟨number, _, placed⟩ := Draft.place_perm perm 0
  refine ⟨Except.ok.inj (drafted.triple.symm.trans drafted'.triple), ?_,
    ⟨drafted.length, drafted'.length⟩, number, ?_, ?_⟩
  · have derived := drafted.preamble
    rw [drafted.functions, preamble_perm (names_perm placed), ← drafted'.functions,
      drafted'.preamble] at derived
    exact (Except.ok.inj derived).symm
  · intro i j function here there
    rw [drafted.functions, drafted'.functions]
    exact lowered_perm placed distinct' drafted.sources drafted'.sources here there
  · exact ((drafted.globals.map _).trans (constants_perm placed perm)).trans
      drafted'.globals.symm

/-- Two functions with texts and numbers, and the same two the other way around. -/
theorem greeting_perm : ((greeting.functions.map (·.name)).Nodup ∧
    greeting.functions.Perm greeting.functions.reverse) ∧
    ∃ first second, (run (generate greeting .builtin {})).1 = .ok first ∧
      (run (generate ⟨greeting.functions.reverse⟩ .builtin {})).1 = .ok second ∧
      Reordered greeting.functions greeting.functions.reverse first second := by
  have distinct : (greeting.functions.map (·.name)).Nodup := by decide
  have reordered : greeting.functions.Perm greeting.functions.reverse :=
    (List.reverse_perm _).symm
  have accepted : (run (generate greeting .builtin {})).1.toBool = true := by decide +kernel
  cases result : (run (generate greeting .builtin {})).1 with
  | error error => simp [result, Except.toBool] at accepted
  | ok first =>
      have same := @generate_perm greeting ⟨greeting.functions.reverse⟩ .builtin {} distinct
        reordered
      obtain ⟨second, result'⟩ := same.1.mp ⟨first, result⟩
      exact ⟨⟨distinct, reordered⟩, first, second, rfl, result', same.2 first second result result'⟩

end Codegen

end LlvmBackend
