import LlvmBackend.Proofs.Generation
import LlvmBackend.Proofs.Scopes

/-! # Signatures

What the table of signatures holds: the functions of a module but for its entry, and the functions
of the library that no function of the module hides.
-/

namespace LlvmBackend

/-- A check of all values gives a result for each. -/
theorem mapM_eq_ok {α β : Type} {check : α → Except CodegenError β} {values : List α}
    {results : List β} : values.mapM check = .ok results ↔
      List.Forall₂ (fun value result => check value = .ok result) values results := by
  induction values generalizing results with
  | nil => cases results <;> simp [pure, Except.pure]
  | cons value values ih =>
      rw [List.mapM_cons]
      cases here : check value with
      | error error => cases results <;> simp [bind, Except.bind, here]
      | ok result =>
          cases there : values.mapM check with
          | error error => cases results <;> simp [bind, Except.bind, ← ih, there, here]
          | ok others =>
              cases results <;> simp [bind, Except.bind, pure, Except.pure, ← ih, there, here]

theorem mem_of_mapM {α β : Type} {check : α → Except CodegenError β} {values : List α}
    {results : List β} (checked : values.mapM check = .ok results) {result : β} :
    result ∈ results ↔ ∃ value ∈ values, check value = .ok result := by
  have each := mapM_eq_ok.mp checked
  clear checked
  induction each with
  | nil => simp
  | cons here _ ih =>
      rw [List.mem_cons, List.exists_mem_cons_iff, here, Except.ok.injEq, eq_comm]
      exact or_congr_right ih

namespace Signature

/-- A signature stands for a function whose types are given by their names. -/
structure Names (types : Registry) (signature : Signature) (symbol returns : String)
    (params : List String) : Prop where
  symbol : signature.symbol = symbol
  returns : types.resolve returns = .ok signature.returns
  params : List.Forall₂ (fun name type => types.resolve name = .ok type) params signature.params

theorem names_of_ofNames {types : Registry} {symbol returns : String} {params : List String}
    {builtin : Bool} {signature : Signature}
    (made : ofNames types symbol returns params builtin = .ok signature) :
    signature.Names types symbol returns params ∧ signature.builtin = builtin := by
  unfold ofNames at made
  cases resolved : types.resolve returns with
  | error error =>
      rw [resolved] at made
      cases made
  | ok result =>
      cases each : params.mapM types.resolve with
      | error error =>
          rw [resolved, each] at made
          cases made
      | ok given =>
          rw [resolved, each] at made
          cases made
          exact ⟨⟨rfl, resolved, mapM_eq_ok.mp each⟩, rfl⟩

end Signature

namespace SignatureTable

/-- What is in a table was entered last, or it was there and nothing took its place. -/
theorem get?_enterAll_cases {table later : SignatureTable} {name : String} {signature : Signature}
    {functions : List (String × Except CodegenError Signature)}
    (entered : enterAll table functions = .ok later) (found : later.get? name = some signature) :
    (name, .ok signature) ∈ functions ∨
      table.get? name = some signature ∧ ∀ function ∈ functions, function.1 ≠ name := by
  induction functions generalizing table with
  | nil =>
      cases entered
      exact .inr ⟨found, by simp⟩
  | cons function rest ih =>
      obtain ⟨first, made⟩ := function
      cases made with
      | error error => cases entered
      | ok made =>
          have entered : enterAll (table.insert first made) rest = .ok later := entered
          rcases ih entered with mem | ⟨there, others⟩
          · exact .inl (List.mem_cons_of_mem _ mem)
          · rw [NameMap.get?_insert] at there
            split at there
            · next eq =>
                cases there
                exact .inl (eq ▸ List.mem_cons_self)
            · next ne => exact .inr ⟨there, List.forall_mem_cons.mpr ⟨Ne.symm ne, others⟩⟩

/-- Why a signature is in a table. -/
inductive Origin (source : Tree.Module) (types : Registry) (entry name : String)
    (signature : Signature) : Prop where
  | function (declared : Tree.Function) :
      declared ∈ source.functions → declared.name ≠ entry → declared.name = name →
      signature.Names types name declared.returns (declared.params.map (·.type)) →
      signature.builtin = false → Origin source types entry name signature
  | library (returns : String) (params : List String) :
      (name, returns, params) ∈ Signature.library →
      signature.Names types name returns params → signature.builtin = true →
      (∀ declared ∈ source.functions, declared.name ≠ entry → declared.name ≠ name) →
      Origin source types entry name signature

theorem Origin.symbol {source : Tree.Module} {types : Registry} {entry name : String}
    {signature : Signature} (origin : Origin source types entry name signature) :
    signature.symbol = name := by
  cases origin with
  | function _ _ _ _ names => exact names.symbol
  | library _ _ _ names => exact names.symbol

/-- A function of the library is one by name, and no function of the module hides it. -/
theorem Origin.mem_library {source : Tree.Module} {types : Registry} {entry name : String}
    {signature : Signature} (origin : Origin source types entry name signature)
    (builtin : signature.builtin = true) : name ∈ Signature.library.map Prod.fst ∧
      ∀ declared ∈ source.functions, declared.name ≠ entry → declared.name ≠ name := by
  cases origin with
  | function _ _ _ _ _ other => cases builtin.symm.trans other
  | library returns params mem _ _ others => exact ⟨List.mem_map_of_mem mem, others⟩

theorem origin_of_collect {source : Tree.Module} {types : Registry} {entry name : String}
    {signatures : SignatureTable} {signature : Signature}
    (collected : collect source types entry = .ok signatures)
    (found : signatures.get? name = some signature) :
    Origin source types entry name signature := by
  unfold collect at collected
  cases library : builtins types with
  | error error =>
      rw [library] at collected
      cases collected
  | ok table =>
      rw [library] at collected
      rcases get?_enterAll_cases collected found with mem | ⟨there, others⟩
      · obtain ⟨declared, kept, eq⟩ := List.mem_map.mp mem
        obtain ⟨rfl, made⟩ := Prod.mk.inj eq
        obtain ⟨listed, ne⟩ := List.mem_filter.mp kept
        obtain ⟨names, builtin⟩ := Signature.names_of_ofNames made
        exact .function declared listed (by simpa using ne) rfl names builtin
      · rcases get?_enterAll_cases library there with mem | ⟨absent, _⟩
        · obtain ⟨⟨_, returns, params⟩, listed, eq⟩ := List.mem_map.mp mem
          obtain ⟨rfl, made⟩ := Prod.mk.inj eq
          obtain ⟨names, builtin⟩ := Signature.names_of_ofNames made
          refine .library returns params listed names builtin fun declared mem ne => ?_
          have kept : declared ∈ source.functions.filter (·.name ≠ entry) :=
            List.mem_filter.mpr ⟨mem, decide_eq_true ne⟩
          exact others _ (List.mem_map_of_mem kept)
        · cases absent

end SignatureTable

end LlvmBackend
