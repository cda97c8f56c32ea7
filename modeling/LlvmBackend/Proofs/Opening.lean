import LlvmBackend.Proofs.Finished
import LlvmBackend.Proofs.Translation.Reads

/-! # Before the body

What is known of names before the body of a function is what the source tells: its parameters, or
what the entry of a module is given.
-/

namespace LlvmBackend

open Ir Lowering Reference

namespace Start

/-- The types that names stand for. -/
def typesIn (scopes : Scopes Value) : Typing :=
  fun name => { type := ((scopes.lookup name).map Value.type).getD Registry.void }

theorem typing_push {scopes : Scopes Value} {slots : List Operand} {used : List String} :
    (Names.mk scopes.push slots used).typing = typesIn scopes := by
  funext name
  simp [Names.typing, typesIn, Scopes.lookup_push, Scopes.lookupLocal_push]

/-- The types of names do not depend on who bound them. -/
theorem bindAll_type {typing other : Typing} (same : ∀ name, (typing name).type = (other name).type)
    (bindings : Bindings) (name : String) :
    (typing.bindAll bindings name).type = (other.bindAll bindings name).type := by
  induction bindings generalizing typing other with
  | nil => exact same name
  | cons binding rest ih =>
      refine ih fun asked => ?_
      simp only [Typing.bind]
      split
      · rfl
      · exact same asked

theorem typesIn_define (scopes : Scopes Value) (name : String) (value : Value) (asked : String) :
    (typesIn (scopes.define name value) asked).type =
      ((typesIn scopes).bind name value.type asked).type := by
  simp only [typesIn, Scopes.lookup_define, Typing.bind]
  split <;> rfl

theorem typesIn_empty (name : String) :
    (typesIn (Scopes.empty (α := Value)) name).type = Registry.void := by
  simp [typesIn]

theorem typing_eq_opened {scopes : Scopes Value} {bindings : Bindings}
    (h : ∀ name, (typesIn scopes name).type = (Typing.bindAll (fun _ => {}) bindings name).type) :
    typesIn scopes = .opened bindings := by
  funext name
  rw [Typing.opened, ← h name]
  rfl

theorem typesIn_addParams {types : Registry} {function : String} {params : List Tree.Param}
    {later : Opening} (entered : params.foldlM (Opening.addParam types function) {} = .ok later) :
    typesIn later.scopes =
      .opened (params.map fun param => (param.name, typeNamed types param.type)) := by
  refine typing_eq_opened fun name => ?_
  refine addParams_induct (motive := fun rest middle =>
      ((typesIn middle.scopes).bindAll
        (rest.map fun param => (param.name, typeNamed types param.type)) name).type = _)
    entered ?_ ?_
  · exact bindAll_type typesIn_empty _ name
  · intro middle param rest type resolved _ ih
    rw [← ih, List.map_cons]
    refine bindAll_type (fun asked => ?_) _ name
    rw [withParam, typesIn_define]
    simp [typeNamed, resolved, Except.toOption, paramValue]

/-- What is known of names before a body is what the source tells. -/
theorem typing_of_starts {types : Registry} {entry : String} {source : Tree.Function} {start : Start}
    (starts : Starts types entry source start) :
    start.names.typing = .opened (opening types entry source) := by
  cases starts with
  | @entry arguments named resolved =>
      rw [opening, if_pos named]
      refine typing_push.trans (typing_eq_opened fun name => ?_)
      rw [typesIn_define]
      have first := typesIn_define Scopes.empty "name" (.stable Registry.string (.named "name"))
      simp only [Typing.bind, Typing.bindAll, List.foldl_cons, List.foldl_nil, typeNamed, resolved,
        Except.toOption, Option.getD_some] at first ⊢
      split
      · rfl
      · rw [first]
        split
        · rfl
        · exact typesIn_empty name
  | @function returns opening other _ entered =>
      rw [Reference.opening, if_neg other, ← typesIn_addParams entered]
      simp only [ofOpening, scopes_addResult]
      exact typing_push

/-- What a function does before its body is observed only in the entry of a module. -/
theorem calls_before {types : Registry} {entry : String} {source : Tree.Function} {start : Start}
    (starts : Starts types entry source start) :
    start.before.flatMap Instr.calls = if source.name = entry then [.call "argv"] else [] := by
  cases starts with
  | entry named => rw [if_pos named]; rfl
  | function other => rw [if_neg other]; rfl

/-- The names that are bound before a body are those that the source tells. -/
theorem lookup_eq_none_iff {types : Registry} {entry : String} {source : Tree.Function}
    {start : Start} (starts : Starts types entry source start) (name : String) :
    start.names.scopes.lookup name = none ↔
      name ∉ (opening types entry source).map Prod.fst := by
  cases starts with
  | entry named =>
      simp only [ofEntry, Scopes.lookup_push, Scopes.lookup_define, opening, if_pos named]
      split
      · next eq => simp [eq]
      · next ne =>
          split
          · next eq => simp [eq]
          · next ne' => simp [ne, ne']
  | @function returns later other _ entered =>
      have bound : ((later.scopes.lookup name).isSome ∨ name ∈ [].map Tree.Param.name) ↔
          name ∈ source.params.map Tree.Param.name := by
        refine addParams_induct (motive := fun rest middle =>
          ((middle.scopes.lookup name).isSome ∨ name ∈ rest.map Tree.Param.name) ↔ _) entered ?_ ?_
        · simp
        · intro middle param rest type _ _ ih
          rw [← ih, withParam, Scopes.lookup_define]
          split
          · next eq => simp [eq]
          · next ne => simp [ne]
      simp only [ofOpening, Scopes.lookup_push, opening, if_neg other, scopes_addResult]
      rw [← Option.not_isSome_iff_eq_none, not_iff_not]
      simpa using bound

/-- What names stand for before a body stands in storage that is taken. -/
theorem given_of_starts {types : Registry} {entry : String} {source : Tree.Function} {start : Start}
    (starts : Starts types entry source start) : start.names.Given := by
  cases starts with
  | @entry arguments =>
      have taken : ∀ storage ∈ ["name", "args"], storage ∈ (ofEntry types arguments).names.used := by
        show ∀ storage ∈ ["name", "args"], storage ∈ (entryNames.foldl Supply.reserve {}).used
        decide
      intro name value found
      simp only [ofEntry, Scopes.lookup_push, Scopes.lookup_define] at found
      split at found
      · cases found
        exact ⟨"args", taken _ (by simp), .inr rfl⟩
      · split at found
        · cases found
          exact ⟨"name", taken _ (by simp), .inr rfl⟩
        · simp at found
  | @function returns later _ _ entered =>
      have given : ∀ name value, later.scopes.lookup name = some value →
          ∃ storage ∈ later.supply.used,
            value.storage = .direct (.named storage) ∨ value.storage = .addressed (.named storage) := by
        refine addParams_induct (motive := fun _ middle => ∀ name value,
          middle.scopes.lookup name = some value → ∃ storage ∈ middle.supply.used,
            value.storage = .direct (.named storage) ∨ value.storage = .addressed (.named storage))
          entered (by simp) ?_
        intro middle param _ type _ _ ih name value found
        rw [withParam, Scopes.lookup_define] at found
        split at found
        · cases found
          refine ⟨param.name, List.mem_cons_self, ?_⟩
          unfold paramValue
          split
          · exact .inl rfl
          · exact .inr rfl
        · obtain ⟨storage, taken, at_storage⟩ := ih name value found
          exact ⟨storage, List.mem_cons_of_mem _ taken, at_storage⟩
      intro name value found
      simp only [ofOpening, scopes_addResult, Scopes.lookup_push] at found
      obtain ⟨storage, taken, at_storage⟩ := given name value found
      exact ⟨storage, used_addResult types later returns taken, at_storage⟩

end Start

end LlvmBackend
