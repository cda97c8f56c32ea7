import LlvmBackend.Lowering
import LlvmBackend.Proofs.Registry.Validation

/-! # Plain steps

A plain step goes on in the same way whatever the pool of literals holds, and leaves it alone. If all
references between types lead somewhere, it does not fail over the name of a type either.
-/

namespace LlvmBackend

/-! ## Names of types -/

/-- A step that does not fail over the name of a type. -/
def Resolves {σ α : Type} (step : EStateM CodegenError σ α) : Prop :=
  ∀ state name later, step state ≠ .error (.unknownType name) later

namespace Resolves

variable {σ α β : Type}

theorem done {value : α} : Resolves (pure value : EStateM CodegenError σ α) := by
  rintro _ _ _ ⟨⟩

theorem bind {step : EStateM CodegenError σ α} {next : α → EStateM CodegenError σ β}
    (first : Resolves step) (goesOn : ∀ value, Resolves (next value)) :
    Resolves (step >>= next) := by
  intro state name last failed
  rcases error_of_bind failed with failed | ⟨value, later, _, failed⟩
  · exact first state name last failed
  · exact goesOn value later name last failed

theorem map {step : EStateM CodegenError σ α} {change : α → β} (h : Resolves step) :
    Resolves (change <$> step) := by
  rw [map_eq_bind]
  exact h.bind fun _ => done

end Resolves

/-! ## Pools -/

/-- States that hold a pool among other things. -/
class Pooled (σ : Type) where
  pool : σ → Pool
  withPool : Pool → σ → σ
  withPool_pool : ∀ state, withPool (pool state) state = state
  pool_withPool : ∀ other state, pool (withPool other state) = other

instance : Pooled Progress where
  pool := Progress.pool
  withPool pool progress := { progress with pool }
  withPool_pool _ := rfl
  pool_withPool _ _ := rfl

instance : Pooled FunctionState where
  pool state := state.pool
  withPool pool state := { state with pool }
  withPool_pool _ := rfl
  pool_withPool _ _ := rfl

open Pooled

/-- The same result with another pool. -/
def repool {σ α : Type} [Pooled σ] (pool : Pool) :
    EStateM.Result CodegenError σ α → EStateM.Result CodegenError σ α
  | .ok value later => .ok value (withPool pool later)
  | .error error later => .error error (withPool pool later)

/-- A step that neither looks at the pool nor, if all references between types lead somewhere, fails
    over the name of a type. -/
structure Plain (types : Registry) {σ α : Type} [Pooled σ] (step : EStateM CodegenError σ α) :
    Prop where
  blind : ∀ state pool, step (withPool pool state) = repool pool (step state)
  resolves : types.Closed → Resolves step

namespace Plain

variable {σ α β : Type} [Pooled σ] {types : Registry}

theorem done {value : α} : Plain types (pure value : EStateM CodegenError σ α) where
  blind _ _ := rfl
  resolves _ := .done

theorem fails {error : CodegenError} (other : ∀ name, error ≠ .unknownType name) :
    Plain types (throw error : EStateM CodegenError σ α) where
  blind _ _ := rfl
  resolves _ := by
    rintro _ name _ failed
    cases failed
    exact other name rfl

theorem bind {step : EStateM CodegenError σ α} {next : α → EStateM CodegenError σ β}
    (first : Plain types step) (goesOn : ∀ value, Plain types (next value)) :
    Plain types (step >>= next) where
  blind state pool := by
    have same := first.blind state pool
    cases ran : step state with
    | ok value later =>
        rw [ran] at same
        rw [bind_of_ok same, bind_of_ok ran]
        exact (goesOn value).blind later pool
    | error error later =>
        rw [ran] at same
        rw [bind_of_error same, bind_of_error ran]
        rfl
  resolves closed := (first.resolves closed).bind fun value => (goesOn value).resolves closed

/-- A step that goes one of two ways. -/
theorem branches {p : Prop} [Decidable p] {yes no : EStateM CodegenError σ α}
    (ifYes : Plain types yes) (ifNo : Plain types no) :
    Plain types (if p then yes else no) := by
  split
  · exact ifYes
  · exact ifNo

/-- A step that changes something else than the pool. -/
theorem modifies {f : σ → α × σ}
    (same : ∀ state pool, f (withPool pool state) = ((f state).1, withPool pool (f state).2)) :
    Plain types (modifyGet f : EStateM CodegenError σ α) where
  blind state pool := by
    show EStateM.Result.ok (f (withPool pool state)).1 (f (withPool pool state)).2 = _
    rw [same]
    rfl
  resolves _ := by rintro _ _ _ ⟨⟩

/-- A step that goes on with what the state says of other things than the pool. -/
theorem reads {f : σ → EStateM CodegenError σ α}
    (same : ∀ state pool, f (withPool pool state) = f state) (each : ∀ state, Plain types (f state)) :
    Plain types (get >>= f) where
  blind state pool := by
    show f (withPool pool state) (withPool pool state) = repool pool (f state state)
    rw [same]
    exact (each state).blind state pool
  resolves closed state name later := (each state).resolves closed state name later

/-- A step that leaves the pool alone. -/
theorem pool_eq {step : EStateM CodegenError σ α} (h : Plain types step) {state later : σ}
    {value : α} (ran : step state = .ok value later) : pool later = pool state := by
  have same := h.blind state (pool state)
  rw [withPool_pool, ran] at same
  have eq : later = withPool (pool state) later := (EStateM.Result.ok.inj same).2
  rw [eq, pool_withPool]

end Plain

end LlvmBackend
