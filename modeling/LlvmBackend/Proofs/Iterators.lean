import LlvmBackend.Proofs.Reads
import LlvmBackend.Proofs.Translation.Iterators.Stmt
import LlvmBackend.Proofs.Typing

/-! # Iterators

A loop drives the iterator that its source stood for before, unless a turn binds the variable that
the iterator is in. A variable keeps its slot as long as it keeps its type, so a value that is bound
to it takes the place of the iterator. Other sources are not touched by the loop: temporaries,
parameters, elements of containers, constants, and variables that get another type first.
-/

namespace LlvmBackend

open Ir Lowering Reference

namespace Starts

variable {types : Registry} {signatures : SignatureTable} {entry : String} {source : Tree.Function}
  {start : Start}

/-- Parameters that have an address have it by their own name. -/
theorem address_of_addParams {function : String} {params : List Tree.Param} {later : Opening}
    (entered : params.foldlM (Opening.addParam types function) {} = .ok later) {name : String}
    {value : Value} {address : Operand} (found : later.scopes.lookup name = some value)
    (at_address : value.address = some address) : address = .named name := by
  refine addParams_induct (motive := fun _ middle => ∀ name value address,
      middle.scopes.lookup name = some value → value.address = some address →
        address = .named name) entered (by simp) ?_ name value address found at_address
  intro middle param rest type _ _ ih name value address found at_address
  rw [withParam, Scopes.lookup_define] at found
  split at found
  · next eq =>
      cases found
      unfold paramValue at at_address
      dsimp only [Value.address] at at_address
      split at at_address
      · cases at_address
      · cases at_address
        rw [eq]
  · exact ih name value address found at_address

/-- Before the body no variable has a slot, and what names stand for is not the result. -/
theorem orderly (starts : Starts types entry source start) (distinct : source.Distinct) :
    start.names.Orderly ⟨types, signatures, start.outcome⟩ := by
  have unbound : ∀ name, start.names.scopes.lookupLocal name = none := by
    intro name
    cases starts <;> exact Scopes.lookupLocal_push name
  refine ⟨fun name value address found at_address => ?_, ?_, ?_, fun storage new => ?_⟩
  · obtain ⟨storage, taken, direct | addressed⟩ := Start.given_of_starts starts name value found
    · rw [Value.address, direct] at at_address
      cases at_address
    · have eq : address = .named storage := by
        rw [Value.address, addressed] at at_address
        exact (Option.some.inj at_address).symm
      refine ⟨storage, taken, eq, fun type returns valued same => ?_⟩
      have bound : name ∈ (opening types entry source).map Prod.fst := by
        by_contra free
        cases ((Start.lookup_eq_none_iff starts name).mpr free).symm.trans found
      cases starts with
      | entry => cases returns
      | function other _ entered =>
          simp only [Start.ofOpening, scopes_addResult, Scopes.lookup_push] at found
          cases eq.symm.trans (address_of_addParams entered found at_address)
          rw [opening, if_neg other] at bound
          exact distinct.result (by simpa [same] using bound)
  · intro name value found
    cases (unbound name).symm.trans found
  · intro name value other value' slot _ found
    cases (unbound other).symm.trans found
  · rintro type returns valued rfl
    cases starts with
    | entry => cases returns
    | function =>
        cases returns
        refine new ?_
        simp [Start.ofOpening, Opening.addResult, valued, Supply.reserve]

end Starts

/-- The loops of an emitted function fill the storage of their iterators exactly if the loops of the
    source rebind a name that this may be the storage of. -/
theorem Emitted.exists_drives {types : Registry} {signatures : SignatureTable} {entry : String}
    {source : Tree.Function} {start : Start} {function : Function}
    (starts : Starts types entry source start) (distinct : source.Distinct)
    (emitted : Emitted types signatures start source.body function) : ∃ code,
      Embodies types signatures entry source function start code ∧
        List.Forall₂ (fun drive iteration =>
            drive.Replaced code.parts ↔ iteration.Rebinds types signatures)
          code.drives
          (suiteIterations types signatures (.opened (opening types entry source)) source.body) := by
  obtain ⟨names, ended, code, slots, site, lowers, finished⟩ := emitted.finished starts.plain
  refine ⟨code, finished.embodies starts lowers, ?_⟩
  have singled : Singled code.parts :=
    finished.build.singled.of_sublist (code.parts_sublist_returning ended start.atEnd)
  have replaced := lowers.replaced_iff (starts.orderly distinct) singled (List.Sublist.refl _)
  rwa [Start.typing_of_starts starts] at replaced

namespace Codegen

/-- In each generated function the code of a loop gives a value to storage that the iterator of the
    loop may be in exactly if the iterator may be in that of a variable whose first binding in the
    loop is to a value of the same type. -/
theorem generate_replaced_iff {source : Tree.Module} {types : Registry} {options : CodegenOptions}
    {generated : Module} (distinct : ∀ function ∈ source.functions, function.Distinct)
    (accepted : (run (generate source types options)).1 = .ok generated) :
    ∃ signatures, SignatureTable.collect source types options.entry = .ok signatures ∧
      List.Forall₂ (fun declared emitted => ∃ start code,
        Embodies types signatures options.entry declared emitted start code ∧
        List.Forall₂ (fun drive iteration =>
            drive.Replaced code.parts ↔ iteration.Rebinds types signatures)
          code.drives
          (suiteIterations types signatures (.opened (opening types options.entry declared))
            declared.body))
        source.functions generated.functions := by
  obtain ⟨_, signatures, collected, renders⟩ := run_ok (generate_yields source types options) accepted
  refine ⟨signatures, collected, ?_⟩
  refine ((List.forall₂_and_left _ _).mpr ⟨distinct, renders⟩).imp ?_
  rintro declared emitted ⟨distinct, start, starts, emits⟩
  obtain ⟨code, replaced⟩ := emits.exists_drives starts distinct
  exact ⟨start, code, replaced⟩

end Codegen

end LlvmBackend
