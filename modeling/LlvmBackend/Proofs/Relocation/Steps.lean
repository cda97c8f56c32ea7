import LlvmBackend.Proofs.Lowering.Steps
import LlvmBackend.Proofs.Pool.Relocation

/-! # Single steps behind other code

A function takes from the code before it only the literals that are in the pool. A step from a state
is compared with the same step from the state as it is behind other code: it does the same, but for
the numbers in the symbols of literals.
-/

namespace LlvmBackend

open Ir

/-- The note about the same with other symbols. -/
def Note.rename (change : String → String) : Note → Note
  | .slot function place name type => .slot function (place.rename change) name type
  | message => message

/-- What was generated before, and which number each of a number of literals gets behind it. -/
structure Relocation where
  before : Progress
  number : Nat → Nat
  injective : Function.Injective number
  bound : Nat
  shifts : ∀ n < bound, number n = before.pool.count + n

namespace Relocation

variable (move : Relocation)

/-- The symbol that a literal gets. -/
def symbol : String → String := Pool.renumber move.number

theorem symbol_injective : Function.Injective move.symbol := Pool.renumber_injective move.injective

/-- An operand and a value with the symbols they get. -/
def both : TypedOperand × Value → TypedOperand × Value :=
  Prod.map (·.rename move.symbol) (·.rename move.symbol)

/-- The progress behind what was generated before. -/
def progress (after : Progress) : Progress where
  pool := Pool.behind move.number move.before.pool after.pool
  notes := move.before.notes ++ after.notes.map (·.rename move.symbol)

/-- The state in the middle of a function behind what was generated before. -/
def state (middle : FunctionState) : FunctionState where
  toProgress := move.progress middle.toProgress
  builder := middle.builder.rename move.symbol
  scopes := middle.scopes.mapValues (·.rename move.symbol)
  supply := middle.supply
  slots := middle.slots.map (·.rename move.symbol)

end Relocation

namespace Lowering

/-- A step only adds literals to the pool. Behind other code the second step does what the first one
    does without it, and gives a value with the symbols that literals get. -/
def Relocates {α β : Type} (types : Registry) (move : Relocation) (change : α → β)
    (step : Lowering α) (moved : Lowering β) : Prop :=
  ∀ state value later, step state = .ok value later →
    Pool.Later types state.pool later.pool ∧
      (later.pool.count ≤ move.bound →
        moved (move.state state) = .ok (change value) (move.state later))

namespace Relocates

variable {α β α' β' : Type} {types : Registry} {move : Relocation} {change : α → α'}
  {change' : β → β'}

theorem done {value : α} : Relocates types move change (pure value) (pure (change value)) := by
  rintro _ _ _ ⟨⟩
  exact ⟨.refl, fun _ => rfl⟩

theorem fails {error : CodegenError} {moved : Lowering α'} :
    Relocates types move change (throw error) moved := by
  rintro _ _ _ ⟨⟩

theorem fails_bind {error : CodegenError} {next : α → Lowering β} {moved : Lowering β'} :
    Relocates types move change' (throw error >>= next) moved := by
  rintro _ _ _ ⟨⟩

theorem bind {step : Lowering α} {moved : Lowering α'} {next : α → Lowering β}
    {next' : α' → Lowering β'} (first : Relocates types move change step moved)
    (goesOn : ∀ value, Relocates types move change' (next value) (next' (change value))) :
    Relocates types move change' (step >>= next) (moved >>= next') := by
  intro state value last result
  obtain ⟨middle, later, ran, result⟩ := exists_of_bind result
  obtain ⟨adds, same⟩ := first state middle later ran
  obtain ⟨adds', same'⟩ := goesOn middle later value last result
  refine ⟨adds.trans adds', fun few => ?_⟩
  have there := same (Nat.le_trans adds'.count_le few)
  rw [bind_of_ok there, same' few]

theorem map {f : α → β} {f' : α' → β'} {step : Lowering α} {moved : Lowering α'}
    (h : Relocates types move change step moved) (eq : ∀ value, f' (change value) = change' (f value)) :
    Relocates types move change' (f <$> step) (f' <$> moved) := by
  rw [map_eq_bind f, map_eq_bind f']
  refine h.bind fun value => ?_
  rw [eq]
  exact .done

/-- Both steps go the same way. -/
theorem branches {p q : Prop} [Decidable p] [Decidable q] {yes no : Lowering α}
    {yes' no' : Lowering α'} (same : p ↔ q) (ifYes : Relocates types move change yes yes')
    (ifNo : Relocates types move change no no') :
    Relocates types move change (if p then yes else no) (if q then yes' else no') := by
  by_cases h : p
  · rwa [if_pos h, if_pos (same.mp h)]
  · rwa [if_neg h, if_neg (mt same.mpr h)]

/-- A step that leaves the pool alone. -/
theorem modifies {f : FunctionState → α × FunctionState} {f' : FunctionState → α' × FunctionState}
    (kept : ∀ state, (f state).2.pool = state.pool)
    (same : ∀ state, f' (move.state state) = (change (f state).1, move.state (f state).2)) :
    Relocates types move change (modifyGet f : Lowering α) (modifyGet f') := by
  rintro state _ _ ⟨⟩
  refine ⟨?_, fun _ => ?_⟩
  · rw [kept]
    exact .refl
  · show EStateM.Result.ok (f' (move.state state)).1 (f' (move.state state)).2 = _
    rw [same]

/-- A step that goes on with what the state says. -/
theorem reads {f : FunctionState → Lowering α} {f' : FunctionState → Lowering α'}
    (same : ∀ state, Relocates types move change (f state) (f' (move.state state))) :
    Relocates types move change ((get : Lowering FunctionState) >>= f) (get >>= f') :=
  fun state => same state state

end Relocates

variable {types : Registry} {move : Relocation}

theorem relocates_tempNumber : Relocates types move id tempNumber tempNumber :=
  .modifies (fun _ => rfl) fun _ => rfl

theorem relocates_temp : Relocates types move (·.rename move.symbol) temp temp :=
  relocates_tempNumber.bind fun _ => .done

theorem relocates_note (message : Note) :
    Relocates types move id (note message) (note (message.rename move.symbol)) :=
  .modifies (fun _ => rfl) fun state => by
    simp [Relocation.state, Relocation.progress]

theorem relocates_functionName : Relocates types move id functionName functionName :=
  .reads fun _ => .done

theorem relocates_currentBlock : Relocates types move id currentBlock currentBlock :=
  .reads fun _ => .done

theorem relocates_isTerminated : Relocates types move id isTerminated isTerminated := by
  refine .reads fun state => ?_
  have same : (move.state state).builder.isTerminated = state.builder.isTerminated :=
    state.builder.rename_isTerminated
  rw [same]
  exact .done

theorem relocates_ofExcept {α : Type} (check : Except CodegenError α) :
    Relocates types move id (ofExcept check) (ofExcept check) := by
  cases check with
  | ok value => exact .done
  | error error => exact .fails

/-- The name of the function is only asked for to fail. -/
theorem relocates_refuse {α β : Type} {change : α → β} {error : String → CodegenError}
    {moved : Lowering β} :
    Relocates types move change (functionName >>= fun name => throw (error name)) moved := by
  rintro _ _ _ ⟨⟩

theorem relocates_refuse_bind {α β γ : Type} {change : β → γ} {error : String → CodegenError}
    {next : α → Lowering β} {moved : Lowering γ} :
    Relocates types move change ((functionName >>= fun name => throw (error name)) >>= next)
      moved := by
  rintro _ _ _ ⟨⟩

theorem relocates_required (value : Option Value) :
    Relocates types move (·.rename move.symbol) (required value)
      (required (value.map (·.rename move.symbol))) := by
  cases value with
  | none => exact relocates_refuse
  | some value => exact .done

theorem relocates_lookup (name : String) :
    Relocates types move (·.rename move.symbol) (lookup name) (lookup name) := by
  refine .reads fun state => ?_
  have same : (move.state state).scopes.lookup name =
      (state.scopes.lookup name).map (·.rename move.symbol) :=
    state.scopes.lookup_mapValues _ name
  rw [same]
  cases state.scopes.lookup name with
  | none => exact relocates_refuse
  | some value => exact .done

theorem relocates_define (name : String) (value : Value) :
    Relocates types move id (define name value) (define name (value.rename move.symbol)) := by
  refine .modifies (fun _ => rfl) fun state => ?_
  simp only [Relocation.state, Scopes.mapValues_define]

/-- A literal is the only step that takes something from the code before it: its number. -/
theorem relocates_literal {add : Pool → Value × Pool}
    (adds : ∀ pool, Pool.Later types pool (add pool).2)
    (follows : ∀ pool, (add pool).2.count ≤ move.bound →
      Pool.Follows move.number move.before.pool pool add) :
    Relocates types move (·.rename move.symbol) (literal add) (literal add) := by
  rintro state _ _ ⟨⟩
  refine ⟨adds state.pool, fun few => ?_⟩
  have pool : (move.state state).pool = Pool.behind move.number move.before.pool state.pool := rfl
  show EStateM.Result.ok (add (move.state state).pool).1
    { move.state state with pool := (add (move.state state).pool).2 } = _
  rw [pool, follows state.pool few]
  rfl

theorem relocates_emit (instr : Instr) :
    Relocates types move id (emit instr) (emit (instr.rename move.symbol)) := by
  intro state _ later result
  rw [emit_eq] at result
  split at result
  · next builder emitted =>
      cases result
      refine ⟨.refl, fun _ => ?_⟩
      have same : (move.state state).builder.emit (instr.rename move.symbol) =
          .ok (builder.rename move.symbol) := state.builder.rename_emit emitted
      rw [emit_eq, same]
      rfl
  · cases result

theorem relocates_terminate (terminator : Terminator) :
    Relocates types move id (terminate terminator) (terminate (terminator.rename move.symbol)) := by
  intro state _ later result
  rw [terminate_eq] at result
  split at result
  · next builder ended =>
      cases result
      refine ⟨.refl, fun _ => ?_⟩
      have same : (move.state state).builder.terminate (terminator.rename move.symbol) =
          .ok (builder.rename move.symbol) := state.builder.rename_terminate ended
      rw [terminate_eq, same]
      rfl
  · cases result

theorem relocates_br (target : BlockId) :
    Relocates types move id (terminate (.br target)) (terminate (.br target)) :=
  relocates_terminate (.br target)

theorem relocates_newBlock (hint : String) :
    Relocates types move id (newBlock hint) (newBlock hint) := by
  refine .modifies (fun _ => rfl) fun state => ?_
  simp only [Relocation.state, Builder.rename_createBlock]
  rfl

theorem relocates_switchTo (block : BlockId) :
    Relocates types move id (switchTo block) (switchTo block) :=
  .modifies (fun _ => rfl) fun _ => rfl

theorem relocates_branchIfOpen (target : BlockId) :
    Relocates types move id (branchIfOpen target) (branchIfOpen target) := by
  refine relocates_isTerminated.bind fun ended => ?_
  cases ended with
  | true => exact .done
  | false => exact relocates_br target

end Lowering

end LlvmBackend
