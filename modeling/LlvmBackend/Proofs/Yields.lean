import LlvmBackend.Codegen

/-! # What steps give

A step of the lowering gives a value and a state of which something holds, or it fails with an error
that points at a defect of the module or of the registry.
-/

namespace LlvmBackend

theorem Registry.resolve_eq_ok {types : Registry} {name : String} {type : TypeId} :
    types.resolve name = .ok type ↔ types.lookup name = some type := by
  unfold Registry.resolve
  cases types.lookup name <;> simp

/-- An error that does not point at a defect of the lowering itself. -/
def CodegenError.Proper : CodegenError → Prop
  | .blockAlreadyTerminated _ _ | .faultyCode _ => False
  | _ => True

/-- A check fails with proper errors only. -/
def FailsProperly {α : Type} (check : Except CodegenError α) : Prop :=
  ∀ error, check = .error error → error.Proper

namespace FailsProperly

variable {α β : Type}

theorem ok (value : α) : FailsProperly (.ok value) := by
  intro error eq
  cases eq

theorem error {error : CodegenError} (proper : error.Proper) :
    FailsProperly (.error error : Except CodegenError α) := by
  intro error eq
  cases eq
  exact proper

theorem bind {check : Except CodegenError α} {next : α → Except CodegenError β}
    (first : FailsProperly check) (second : ∀ value, FailsProperly (next value)) :
    FailsProperly (check >>= next) := by
  cases check with
  | error error' => exact .error (first error' rfl)
  | ok value => exact second value

theorem map {check : Except CodegenError α} (change : α → β) (h : FailsProperly check) :
    FailsProperly (change <$> check) := by
  cases check with
  | error error' => exact .error (h error' rfl)
  | ok value => exact .ok (change value)

theorem mapM {check : α → Except CodegenError β} (values : List α)
    (each : ∀ value, FailsProperly (check value)) : FailsProperly (values.mapM check) := by
  induction values with
  | nil => exact .ok []
  | cons value values ih =>
      rw [List.mapM_cons]
      exact (each value).bind fun _ => ih.bind fun _ => .ok _

theorem foldlM {check : β → α → Except CodegenError β} (values : List α) (start : β)
    (each : ∀ before value, FailsProperly (check before value)) :
    FailsProperly (values.foldlM check start) := by
  induction values generalizing start with
  | nil => exact .ok start
  | cons value values ih =>
      rw [List.foldlM_cons]
      exact (each start value).bind ih

theorem resolve (types : Registry) (name : String) : FailsProperly (types.resolve name) := by
  unfold Registry.resolve
  split
  · exact .ok _
  · exact .error trivial

end FailsProperly

/-! ## Steps one after the other -/

section

variable {σ α β : Type} {step : EStateM CodegenError σ α} {next : α → EStateM CodegenError σ β}
  {state : σ}

theorem bind_of_ok {value : α} {later : σ} (ran : step state = .ok value later) :
    (step >>= next) state = next value later := by
  simp [Bind.bind, EStateM.bind, ran]

theorem bind_of_error {error : CodegenError} {later : σ} (failed : step state = .error error later) :
    (step >>= next) state = .error error later := by
  simp [Bind.bind, EStateM.bind, failed]

theorem exists_of_bind {value : β} {last : σ} (result : (step >>= next) state = .ok value last) :
    ∃ found between, step state = .ok found between ∧ next found between = .ok value last := by
  cases ran : step state with
  | error error between => cases (bind_of_error ran).symm.trans result
  | ok found between => exact ⟨found, between, rfl, (bind_of_ok ran).symm.trans result⟩

theorem bind_eq_ok {value : β} {last : σ} : (step >>= next) state = .ok value last ↔
    ∃ found between, step state = .ok found between ∧ next found between = .ok value last := by
  refine ⟨exists_of_bind, ?_⟩
  rintro ⟨found, between, ran, rest⟩
  exact (bind_of_ok ran).trans rest

/-- One of two steps fails if they fail together. -/
theorem error_of_bind {error : CodegenError} {last : σ}
    (failed : (step >>= next) state = .error error last) :
    step state = .error error last ∨
      ∃ found between, step state = .ok found between ∧ next found between = .error error last := by
  cases ran : step state with
  | error error' between =>
      cases (bind_of_error ran).symm.trans failed
      exact .inl rfl
  | ok found between => exact .inr ⟨found, between, rfl, (bind_of_ok ran).symm.trans failed⟩

theorem map_eq_bind (change : α → β) (step : EStateM CodegenError σ α) :
    change <$> step = step >>= fun value => pure (change value) := by
  funext state
  simp [Functor.map, EStateM.map, Bind.bind, EStateM.bind, Pure.pure, EStateM.pure]

end

/-! ## What a step gives -/

/-- A step gives what is said, or fails with a proper error. -/
def Yields {σ α : Type} (step : EStateM CodegenError σ α) (state : σ)
    (post : α → σ → Prop) : Prop :=
  match step state with
  | .ok value later => post value later
  | .error error _ => error.Proper

namespace Yields

variable {σ α β : Type} {state : σ}

theorem intro {step : EStateM CodegenError σ α} {post : α → σ → Prop}
    (gives : ∀ value later, step state = .ok value later → post value later)
    (proper : ∀ error later, step state = .error error later → error.Proper) :
    Yields step state post := by
  unfold Yields
  split
  · next result => exact gives _ _ result
  · next result => exact proper _ _ result

theorem ok {step : EStateM CodegenError σ α} {post : α → σ → Prop} {value : α} {later : σ}
    (h : Yields step state post) (result : step state = .ok value later) : post value later := by
  rwa [Yields, result] at h

theorem error {step : EStateM CodegenError σ α} {post : α → σ → Prop} {error : CodegenError}
    {later : σ} (h : Yields step state post) (result : step state = .error error later) :
    error.Proper := by
  rwa [Yields, result] at h

theorem congr {step step' : EStateM CodegenError σ α} {post : α → σ → Prop}
    (h : Yields step state post) (eq : step' state = step state) : Yields step' state post := by
  rwa [Yields, eq]

theorem done {post : α → σ → Prop} {value : α} (h : post value state) :
    Yields (pure value) state post := h

theorem fails {post : α → σ → Prop} {error : CodegenError} (h : error.Proper) :
    Yields (throw error) state post := h

theorem fails_bind {post : β → σ → Prop} {error : CodegenError}
    {next : α → EStateM CodegenError σ β} (h : error.Proper) :
    Yields (throw error >>= next) state post := h

theorem mono {step : EStateM CodegenError σ α} {post post' : α → σ → Prop}
    (h : Yields step state post) (le : ∀ value later, post value later → post' value later) :
    Yields step state post' := by
  unfold Yields at h ⊢
  split at h
  · exact le _ _ h
  · exact h

/-- What holds of a step by two arguments holds at once. -/
theorem both {step : EStateM CodegenError σ α} {post post' : α → σ → Prop}
    (h : Yields step state post) (h' : Yields step state post') :
    Yields step state fun value later => post value later ∧ post' value later := by
  unfold Yields at h h' ⊢
  split at h
  · next eq => exact ⟨h, by simpa [eq] using h'⟩
  · exact h

theorem bind {step : EStateM CodegenError σ α} {next : α → EStateM CodegenError σ β}
    {post : α → σ → Prop} {post' : β → σ → Prop} (h : Yields step state post)
    (goesOn : ∀ value later, post value later → Yields (next value) later post') :
    Yields (step >>= next) state post' := by
  cases ran : step state with
  | ok value later =>
      unfold Yields
      rw [bind_of_ok ran]
      exact goesOn value later (h.ok ran)
  | error error later =>
      unfold Yields
      rw [bind_of_error ran]
      exact h.error ran

theorem map {step : EStateM CodegenError σ α} {change : α → β} {post : α → σ → Prop}
    {post' : β → σ → Prop} (h : Yields step state post)
    (le : ∀ value later, post value later → post' (change value) later) :
    Yields (change <$> step) state post' := by
  rw [map_eq_bind]
  exact h.bind fun value later h => done (le value later h)

theorem gets {post : σ → σ → Prop} (h : post state state) :
    Yields (get : EStateM CodegenError σ σ) state post := h

theorem modifies {post : PUnit → σ → Prop} {change : σ → σ} (h : post ⟨⟩ (change state)) :
    Yields (modify change : EStateM CodegenError σ PUnit) state post := h

theorem modifiesGet {post : α → σ → Prop} {change : σ → α × σ}
    (h : post (change state).1 (change state).2) :
    Yields (modifyGet change : EStateM CodegenError σ α) state post := h

end Yields

end LlvmBackend
