import LlvmBackend.Proofs.Code.Parting
import LlvmBackend.Proofs.Translation.Variables

/-! # What look-ups find

Whether the value of a look-up is the one that its name was given last on the way. Main statement:
if names have slots of their own, this is so exactly if the name is bound in the body both in the
order of the text and on the way, or neither (`current_iff`).
-/

namespace LlvmBackend

open Ir Names

/-! ## Acts that give values -/

namespace Act

/-- An act gives a variable a value. -/
def writes (name : String) : Act → Bool
  | .move (.write written _) (.instr _ _) => written = name
  | _ => false

/-- An act gives storage a value. -/
def gives (slot : Operand) : Act → Bool
  | .move _ (.instr _ i) => i.gives? = some slot
  | _ => false

/-- How many acts ago something happened last. -/
def ago (happens : Act → Bool) (before : List Act) : Option Nat := before.reverse.findIdx? happens

theorem ago_eq_none {happens : Act → Bool} {before : List Act} :
    ago happens before = none ↔ ∀ act ∈ before, happens act = false := by
  simp [ago, List.findIdx?_eq_none_iff]

theorem ago_congr {first second : Act → Bool} {before : List Act}
    (same : ∀ act ∈ before, first act = second act) : ago first before = ago second before := by
  have same : ∀ act ∈ before.reverse, first act = second act :=
    fun act mem => same act (List.mem_reverse.mp mem)
  unfold ago
  generalize before.reverse = acts at same
  induction acts with
  | nil => rfl
  | cons act rest ih =>
      obtain ⟨eq, others⟩ := List.forall_mem_cons.mp same
      rw [List.findIdx?_cons, List.findIdx?_cons, eq, ih others]

end Act

/-- A value that is looked up is the one that its name was given last on the way, or the one that the
    name stood for before the body if it was given none. -/
def Value.Current (start : Names) (before : List Act) (name : String) (value : Value) : Prop :=
  match Act.ago (Act.writes name) before with
  | some n => ∃ slot, value.storage = .addressed slot ∧ Act.ago (Act.gives slot) before = some n
  | none => ∀ first, start.scopes.lookup name = some first →
      value = first ∧ ∀ slot ∈ first.address, Act.ago (Act.gives slot) before = none

/-! ## Look-ups -/

/-- What names stand for before a body stands in storage that is taken. -/
def Names.Given (start : Names) : Prop :=
  ∀ name value, start.scopes.lookup name = some value → ∃ storage ∈ start.used,
    value.storage = .direct (.named storage) ∨ value.storage = .addressed (.named storage)

section

variable {start names : Names} {typeOf : String → TypeId} {code : Code} {act : Act}
  {storage name : String}

/-- Only a variable gives its slot a value. -/
theorem Act.exists_writes (resolves : code.All (Resolves start names)) (part : act.From code.parts)
    (free : act.isResult = false) (gives : act.gives (.named storage)) :
    ∃ written value, act.writes written ∧ names.scopes.lookupLocal written = some value ∧
      value.address = some (.named storage) := by
  cases act with
  | read => cases gives
  | move role move =>
      cases move with
      | jump | branch | ret => cases gives
      | instr spot i =>
          have stored : i.gives? = some (.named storage) := of_decide_eq_true gives
          have resolves := resolves _ part
          cases role with
          | plain =>
              obtain ⟨n, temp⟩ := resolves _ stored
              cases temp
          | release => cases stored.symm.trans resolves
          | result => cases free
          | write written type =>
              obtain ⟨value, slot, found, address, same⟩ := resolves
              cases stored.symm.trans same
              exact ⟨written, value, decide_eq_true rfl, found, address⟩

/-- A variable gives the slot that its name stands for a value. -/
theorem Act.gives_of_writes (resolves : code.All (Resolves start names))
    (part : act.From code.parts) (writes : act.writes name) :
    ∃ value slot, names.scopes.lookupLocal name = some value ∧ value.address = some slot ∧
      act.gives slot := by
  cases act with
  | read => cases writes
  | move role move =>
      cases role with
      | plain | release | result => cases writes
      | write written type =>
          cases move with
          | jump | branch | ret => cases writes
          | instr spot i =>
              cases of_decide_eq_true writes
              obtain ⟨value, slot, found, address, gives⟩ := resolves _ part
              exact ⟨value, slot, found, address, decide_eq_true gives⟩

section

variable {before : List Act} (settled : names.Settled start typeOf)
  (resolves : code.All (Resolves start names)) (parts : ∀ act ∈ before, act.From code.parts)
  (free : ∀ act ∈ before, act.isResult = false)
include settled resolves parts free

/-- The slot of a variable is given a value when the variable is. -/
theorem ago_gives_slot (found : names.scopes.lookupLocal name = some value)
    (address : value.address = some (.named storage)) :
    Act.ago (Act.gives (.named storage)) before = Act.ago (Act.writes name) before := by
  refine Act.ago_congr fun act mem => Bool.eq_iff_iff.mpr ⟨fun gives => ?_, fun writes => ?_⟩
  · obtain ⟨written, value', writes, found', address'⟩ :=
      act.exists_writes resolves (parts act mem) (free act mem) gives
    rwa [settled.apart name value written value' found found' (address.trans address'.symm)]
  · obtain ⟨value', slot, found', address', gives⟩ := act.gives_of_writes resolves (parts act mem) writes
    cases found.symm.trans found'
    cases address.symm.trans address'
    exact gives

/-- Nothing gives storage a value that was taken before the body. -/
theorem ago_gives_taken (taken : storage ∈ start.used) :
    Act.ago (Act.gives (.named storage)) before = none := by
  refine Act.ago_eq_none.mpr fun act mem => Bool.eq_false_iff.mpr fun gives => ?_
  obtain ⟨written, value, _, found, address⟩ :=
    act.exists_writes resolves (parts act mem) (free act mem) gives
  obtain ⟨slot, rfl, there⟩ := settled.bound written value found
  cases address
  exact (settled.taken _ there).2 taken

end

/-- A look-up finds the value that its name was given last exactly if nothing before the body bound
    the name, or the body binds it both in the text before the look-up and on the way to it, or
    neither. -/
theorem Exec.current_iff {p : Spot} {before after : List Act} {rebound : Bool} {value : Value}
    {stop : Option Spot}
    (exec : Exec p code (before ++ .read name rebound value :: after) stop)
    (settled : names.Settled start typeOf) (given : start.Given)
    (resolves : code.All (Resolves start names)) (parting : code.Parting) :
    value.Current start before name ↔
      start.scopes.lookup name = none ∨ (rebound ↔ ∃ act ∈ before, act.writes name) := by
  have free := (exec.parting parting).before
  obtain ⟨parts, here⟩ := List.forall_mem_append.mp exec.acts_from
  have read := resolves _ (here _ List.mem_cons_self)
  have written : (∃ act ∈ before, act.writes name) ↔ Act.ago (Act.writes name) before ≠ none := by
    simp [Act.ago_eq_none]
  rw [written, Value.Current]
  cases rebound with
  | true =>
      have found : names.scopes.lookupLocal name = some value := read
      obtain ⟨storage, rfl, there⟩ := settled.bound name value found
      have same := ago_gives_slot settled resolves parts free found rfl
      cases last : Act.ago (Act.writes name) before with
      | some n => exact iff_of_true ⟨_, rfl, same.trans last⟩ (.inr (by simp))
      | none =>
          cases first : start.scopes.lookup name with
          | none => simp
          | some value =>
              -- The slot is new, so it is not what the name stood for before the body.
              refine iff_of_false (fun current => ?_) (by simp)
              obtain ⟨rfl, _⟩ := current value rfl
              obtain ⟨storage', taken, direct | addressed⟩ := given name _ first
              · cases direct
              · cases addressed
                exact (settled.taken _ there).2 taken
  | false =>
      have first : start.scopes.lookup name = some value := read
      obtain ⟨storage, taken, at_storage⟩ := given name value first
      have untouched := ago_gives_taken settled resolves parts free taken
      cases last : Act.ago (Act.writes name) before with
      | some n =>
          refine iff_of_false ?_ (by simp [first])
          rintro ⟨slot, addressed, given⟩
          rcases at_storage with direct | addressed'
          · cases direct.symm.trans addressed
          · cases addressed'.symm.trans addressed
            cases untouched.symm.trans given
      | none =>
          refine iff_of_true (fun other found => ?_) (.inr (by simp))
          cases first.symm.trans found
          refine ⟨rfl, fun slot address => ?_⟩
          rcases at_storage with direct | addressed
          · simp [Value.address, direct, Storage.address] at address
          · simp only [Value.address, addressed, Storage.address, Option.mem_def,
              Option.some.injEq] at address
            rwa [← address]

end

end LlvmBackend
