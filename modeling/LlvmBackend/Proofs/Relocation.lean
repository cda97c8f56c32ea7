import LlvmBackend.Proofs.Relocation.Stmt
import LlvmBackend.Proofs.Typing

/-! # Functions behind other code

A function is lowered in the same way wherever it stands in a module: what was generated before it
shifts the numbers of its literals and brings the truth values, and does nothing else.
-/

namespace LlvmBackend

open Ir

namespace Lowering

variable {types : Registry} {signatures : SignatureTable} {move : Relocation}

theorem relocates_leaveAtEnd (value : Option TypedOperand) :
    Relocates types move id (leaveAtEnd value)
      (leaveAtEnd (value.map (·.rename move.symbol))) := by
  refine relocates_isTerminated.bind fun ended => ?_
  cases ended with
  | true => exact .done
  | false => exact relocates_terminate (.ret value)

theorem relocates_body (env : Surroundings) (body : List Stmt) (value : Option TypedOperand) :
    Relocates env.types move id (suite env body >>= fun _ => leaveAtEnd value)
      (suite env body >>= fun _ => leaveAtEnd (value.map (·.rename move.symbol))) :=
  (relocates_suite body).bind fun _ => relocates_leaveAtEnd value

/-- What stands in a module after a function if the function stands there without and with other
    code before it. -/
def Carries (types : Registry) (move : Relocation) (step : Codegen Function) : Prop :=
  ∀ before lowered after, step before = .ok lowered after →
    Pool.Later types before.pool after.pool ∧ (after.pool.count ≤ move.bound →
      step (move.progress before) = .ok (lowered.rename move.symbol) (move.progress after))

theorem carries_build {builder : Builder} {scopes : Scopes Value} {supply : Supply}
    {steps : Lowering Unit} (plain : builder.rename move.symbol = builder)
    (named : scopes.mapValues (·.rename move.symbol) = scopes)
    (relocates : Relocates types move id steps steps) :
    Carries types move (build builder scopes supply steps) := by
  intro before lowered after result
  obtain ⟨later, ran, rfl, rfl⟩ := build_ok result
  obtain ⟨adds, same⟩ := relocates _ _ _ ran
  refine ⟨adds, fun few => ?_⟩
  have ran' := same few
  simp only [Relocation.state, plain, named, List.map_nil] at ran'
  unfold build
  rw [ran']
  simp only [← Builder.rename_finish]

/-! ## Functions that can be called -/

theorem paramValue_rename (types : Registry) (name : String) (type : TypeId)
    (change : String → String) :
    (paramValue types name type).rename change = paramValue types name type := by
  unfold paramValue
  split <;> rfl

/-- Parameters stand for operands that have no symbol. -/
theorem scopes_addParams {function : String} {params : List Tree.Param} {opening : Opening}
    (eq : params.foldlM (Opening.addParam types function) {} = .ok opening)
    (change : String → String) : opening.scopes.mapValues (·.rename change) = opening.scopes := by
  refine addParams_induct
    (motive := fun _ middle => middle.scopes.mapValues (·.rename change) = middle.scopes) eq
    (Scopes.mapValues_empty _) fun middle param _ type _ _ same => ?_
  simp only [withParam, Scopes.mapValues_define, same, paramValue_rename]

theorem carries_lowerFunction (source : Tree.Function) :
    Carries types move (lowerFunction types signatures source) := by
  cases resolved : types.resolve source.returns with
  | error error =>
      intro before lowered after result
      simp only [lowerFunction, resolved, Bind.bind, Except.bind] at result
      cases result
  | ok returns =>
      cases entered : source.params.foldlM (Opening.addParam types source.name) {} with
      | error error =>
          intro before lowered after result
          simp only [lowerFunction, resolved, entered, Bind.bind, Except.bind] at result
          cases result
      | ok opening =>
          have scopes : (opening.addResult types returns).scopes.push.mapValues
              (·.rename move.symbol) = (opening.addResult types returns).scopes.push := by
            rw [scopes_addResult, Scopes.mapValues_push, scopes_addParams entered]
          unfold lowerFunction
          simp only [resolved, entered, Bind.bind, Except.bind, pure, Except.pure]
          exact carries_build rfl scopes
            (relocates_body ⟨types, signatures, .result returns⟩ source.body none)

/-! ## The entry -/

theorem relocates_openEntry (arguments : TypeId) :
    Relocates types move id (openEntry types arguments) (openEntry types arguments) := by
  refine (relocates_emit (.alloca _ _)).bind fun _ => ?_
  refine (relocates_emit (.call none .void argvSymbol _)).bind fun _ => ?_
  refine (relocates_emit (.load _ _ _)).bind fun _ => ?_
  refine (relocates_emit (.elementPtr _ _ _ [⟨.i64, .int 0⟩])).bind fun _ => ?_
  refine (relocates_emit (.elementPtr _ _ _ [⟨.i64, .int 1⟩])).bind fun _ => ?_
  refine (relocates_emit (.alloca _ _)).bind fun _ => ?_
  refine (relocates_emit (.store _ _)).bind fun _ => ?_
  refine (relocates_define _ _).bind fun _ => (relocates_define _ _).bind fun _ => ?_
  refine .modifies (fun _ => rfl) fun state => ?_
  simp only [Relocation.state, Scopes.mapValues_push]

theorem carries_lowerEntry (source : Tree.Function) :
    Carries types move (lowerEntry types signatures source) := by
  cases resolved : types.resolve argumentsType.name with
  | error error =>
      intro before lowered after result
      simp only [lowerEntry, resolved] at result
      cases result
  | ok arguments =>
      unfold lowerEntry
      simp only [resolved]
      exact carries_build rfl (Scopes.mapValues_empty _) ((relocates_openEntry arguments).bind
        fun _ => relocates_body ⟨types, signatures, .status⟩ source.body (some success))

end Lowering

namespace Codegen

variable {types : Registry} {signatures : SignatureTable} {move : Relocation}

/-- Behind other code a function is lowered in the same way, but for the numbers of its literals. -/
theorem carries_function (entry : String) (source : Tree.Function) :
    Lowering.Carries types move (function types signatures entry source) := by
  have noted {step : Codegen Function} (carries : Lowering.Carries types move step) :
      Lowering.Carries types move (step >>= fun lowered =>
        note (.lowered source.name lowered.name lowered.layout.length lowered.instrCount) >>=
          fun _ => pure lowered) := by
    intro before lowered after result
    obtain ⟨found, between, ran, rest⟩ := exists_of_bind result
    cases rest
    obtain ⟨adds, same⟩ := carries before lowered between ran
    refine ⟨adds, fun few => ?_⟩
    simp only [Bind.bind, EStateM.bind, same few, Function.instrCount_rename]
    refine congrArg (EStateM.Result.ok (lowered.rename move.symbol)) ?_
    simp [Relocation.progress, Note.rename, Function.rename]
  unfold function
  split
  · exact noted (Lowering.carries_lowerEntry source)
  · exact noted (Lowering.carries_lowerFunction source)

end Codegen

end LlvmBackend
