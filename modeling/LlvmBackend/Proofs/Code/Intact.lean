import LlvmBackend.Proofs.Code.Custody
import LlvmBackend.Proofs.Code.Numbers

/-! # What code leaves alone

What instructions do to registers and slots is confined to a region: the numbers that they define,
and the slots of the values that they use up. Operands that stand for nothing in the region stay
intact. There is one rule for each kind of instruction.
-/

namespace LlvmBackend

open Ir

namespace Custody

/-- What changed is in a region, but for results of calls that were given to slots. -/
structure Confined (region : List Nat) (custody later : Custody) : Prop where
  value : ∀ n ∉ region, later.course.value n = custody.course.value n
  turns : ∀ n ∉ region, later.ledger.turns n = custody.ledger.turns n
  origin : ∀ n ∉ region, later.ledger.origin n = custody.ledger.origin n
  unspent : ∀ n ∉ region, custody.ledger.phase n ≠ .spent → later.ledger.phase n ≠ .spent
  given : ∀ n ∉ region, custody.ledger.phase n = .given → later.ledger.phase n = .given

/-- What an operand stands for is in a region and not used up, nor is what it was loaded from, which
    was not allocated again since then. -/
structure Intact (region : List Nat) (custody : Custody) (operand : Operand) : Prop where
  own : ∀ n, operand = .temp n → n ∈ region
  slot : ∀ n, custody.eval operand = .temp n → n ∈ region ∧ custody.ledger.phase n ≠ .spent
  content : ∀ n turn, custody.ledger.origin? (custody.eval operand) = some (n, turn) →
    n ∈ region ∧ custody.ledger.phase n ≠ .spent ∧ custody.ledger.turns n = turn

variable {region more first second : List Nat} {custody later last : Custody} {operand : Operand}

theorem Confined.refl (region : List Nat) (custody : Custody) : Confined region custody custody :=
  ⟨fun _ _ => rfl, fun _ _ => rfl, fun _ _ => rfl, fun _ _ h => h, fun _ _ h => h⟩

theorem Confined.mono (h : Confined region custody later) (sub : region ⊆ more) :
    Confined more custody later where
  value := fun n other => h.value n fun mem => other (sub mem)
  turns := fun n other => h.turns n fun mem => other (sub mem)
  origin := fun n other => h.origin n fun mem => other (sub mem)
  unspent := fun n other => h.unspent n fun mem => other (sub mem)
  given := fun n other => h.given n fun mem => other (sub mem)

theorem Confined.trans (h₁ : Confined region custody later) (h₂ : Confined region later last) :
    Confined region custody last where
  value := fun n other => (h₂.value n other).trans (h₁.value n other)
  turns := fun n other => (h₂.turns n other).trans (h₁.turns n other)
  origin := fun n other => (h₂.origin n other).trans (h₁.origin n other)
  unspent := fun n other unspent => h₂.unspent n other (h₁.unspent n other unspent)
  given := fun n other given => h₂.given n other (h₁.given n other given)

theorem Confined.append (h₁ : Confined first custody later) (h₂ : Confined second later last) :
    Confined (first ++ second) custody last :=
  (h₁.mono (List.subset_append_left _ _)).trans (h₂.mono (List.subset_append_right _ _))

theorem confined_leave (region : List Nat) (custody : Custody) (block : BlockId) :
    Confined region custody (custody.leave block) :=
  ⟨fun _ _ => rfl, fun _ _ => rfl, fun _ _ => rfl, fun _ _ h => h, fun _ _ h => h⟩

theorem Intact.mono (h : Intact region custody operand) (sub : region ⊆ more) :
    Intact more custody operand where
  own := fun n eq => sub (h.own n eq)
  slot := fun n eq => (h.slot n eq).imp_left (@sub n)
  content := fun n turn eq => (h.content n turn eq).imp_left (@sub n)

theorem eval_of_constant (constant : operand.temp? = none) : custody.eval operand = operand := by
  cases operand with
  | temp => cases constant
  | named | symbol | bool | int => rfl

/-- Only numbered registers stand for slots. -/
theorem intact_of_constant (constant : operand.temp? = none) : Intact region custody operand := by
  have not_temp : ∀ n, operand ≠ .temp n := by
    intro n eq
    rw [eq] at constant
    cases constant
  have eq := @eval_of_constant custody operand constant
  refine ⟨fun n eq => absurd eq (not_temp n), ?_, ?_⟩
  · intro n same
    exact absurd (eq.symm.trans same) (not_temp n)
  · intro n turn same
    rw [eq] at same
    cases operand with
    | temp n => cases constant
    | named | symbol | bool | int => cases same

theorem Confined.eval (h : Confined more custody later) (intact : Intact region custody operand)
    (apart : region.Disjoint more) : later.eval operand = custody.eval operand := by
  cases operand with
  | temp n => exact h.value n (apart (intact.own n rfl))
  | named | symbol | bool | int => rfl

theorem Confined.origin? (h : Confined more custody later) (intact : Intact region custody operand)
    (apart : region.Disjoint more) :
    later.ledger.origin? (custody.eval operand) = custody.ledger.origin? (custody.eval operand) := by
  cases eq : custody.eval operand with
  | temp n => exact h.origin n (apart (intact.slot n eq).1)
  | named | symbol | bool | int => rfl

theorem Intact.confined (intact : Intact region custody operand)
    (h : Confined more custody later) (apart : region.Disjoint more) :
    Intact region later operand where
  own := intact.own
  slot := by
    intro n eq
    rw [h.eval intact apart] at eq
    obtain ⟨mem, unspent⟩ := intact.slot n eq
    exact ⟨mem, h.unspent n (apart mem) unspent⟩
  content := by
    intro n turn eq
    rw [h.eval intact apart, h.origin? intact apart] at eq
    obtain ⟨mem, unspent, same⟩ := intact.content n turn eq
    exact ⟨mem, h.unspent n (apart mem) unspent, (h.turns n (apart mem)).trans same⟩

/-! ## Instructions -/

theorem exists_read {value : Nat → Operand} {i : Instr} {address : Operand}
    (touches : (i.under value).Touches address) :
    ∃ operand ∈ i.reads, operand.under value = address := by
  cases i with
  | load | store | call =>
      simpa [Instr.under, Instr.Touches, Instr.reads, eq_comm] using touches
  | alloca | elementPtr | select | phi => cases touches

/-- An instruction that reads what is intact can be carried out. -/
theorem admits_of_intact {i : Instr} (reads : ∀ operand ∈ i.reads, Intact region custody operand) :
    custody.Admits false i where
  intact := by
    intro n touches
    obtain ⟨operand, mem, eq⟩ := exists_read touches
    exact ((reads operand mem).slot n eq).2
  kept := by
    intro stored operand name eq n turn loaded
    cases i with
    | store value dest =>
        have intact := reads value.operand (by simp [Instr.reads])
        simp only [Instr.under, Instr.store.injEq, TypedOperand.mk.injEq] at eq
        obtain ⟨⟨-, rfl⟩, -⟩ := eq
        exact (intact.content n turn loaded).2
    | alloca | load | call | elementPtr | select | phi => cases eq
  owned := by
    intro released
    cases released

theorem admits_merge {dest : Operand} {type : IrType} {incoming : List (Operand × BlockId)} :
    custody.Admits false (.phi dest type incoming) where
  intact := by
    intro n touches
    cases touches
  kept := by
    intro stored operand name eq
    cases eq
  owned := by
    intro released
    cases released

/-- A register is new: it stands for itself. -/
structure Defines (n : Nat) (origin : Option (Nat × Nat)) (custody later : Custody) : Prop where
  confined : Confined [n] custody later
  value : later.eval (.temp n) = .temp n
  phase : later.ledger.phase n = .idle
  origin : later.ledger.origin n = origin

section

variable {n : Nat} {origin : Option (Nat × Nat)} {released : Bool} {i : Instr}

theorem confined_of_define {value : Operand}
    (values : later.course.value = Function.update custody.course.value n value)
    (phases : later.ledger.phase = Function.update custody.ledger.phase n .idle)
    (counts : later.ledger.turns =
      Function.update custody.ledger.turns n (custody.ledger.turns n + 1))
    (origins : later.ledger.origin = Function.update custody.ledger.origin n origin) :
    Confined [n] custody later where
  value := by
    intro m other
    rw [values, Function.update_of_ne (by simpa using other)]
  turns := by
    intro m other
    rw [counts, Function.update_of_ne (by simpa using other)]
  origin := by
    intro m other
    rw [origins, Function.update_of_ne (by simpa using other)]
  unspent := by
    intro m other unspent
    rwa [phases, Function.update_of_ne (by simpa using other)]
  given := by
    intro m other given
    rwa [phases, Function.update_of_ne (by simpa using other)]

theorem defines_of (values : later.course.value = Function.update custody.course.value n (.temp n))
    (phases : later.ledger.phase = Function.update custody.ledger.phase n .idle)
    (counts : later.ledger.turns =
      Function.update custody.ledger.turns n (custody.ledger.turns n + 1))
    (origins : later.ledger.origin = Function.update custody.ledger.origin n origin) :
    Defines n origin custody later where
  confined := confined_of_define values phases counts origins
  value := by
    show later.course.value n = _
    rw [values, Function.update_self]
  phase := by rw [phases, Function.update_self]
  origin := by rw [origins, Function.update_self]

theorem value_put (dest : i.dest = some (.temp n)) (plain : i.incoming? = none) :
    (custody.put released i).course.value = Function.update custody.course.value n (.temp n) := by
  simp [put, Course.put, dest, Course.merged?, plain]

theorem course_put (dest : ∀ n, i.dest ≠ some (.temp n)) :
    (custody.put released i).course = custody.course := by
  show custody.course.put i = _
  unfold Course.put
  split
  · next n eq => exact absurd eq (dest n)
  · rfl

theorem defines_alloca {type : IrType} :
    Defines n none custody (custody.put false (.alloca (.temp n) type)) ∧
      (custody.put false (.alloca (.temp n) type)).ledger.fresh = some n :=
  ⟨defines_of (value_put rfl rfl) rfl rfl rfl, rfl⟩

theorem defines_load {type : IrType} {source : Operand} :
    Defines n (custody.ledger.slot? (custody.eval source)) custody
      (custody.put false (.load (.temp n) type source)) :=
  defines_of (value_put rfl rfl) rfl rfl rfl

theorem defines_elementPtr {type : IrType} {base : Operand} {indices : List TypedOperand} :
    Defines n none custody (custody.put false (.elementPtr (.temp n) type base indices)) :=
  defines_of (value_put rfl rfl) rfl rfl rfl

theorem defines_select {condition : Operand} {onTrue onFalse : TypedOperand} :
    Defines n none custody (custody.put false (.select (.temp n) condition onTrue onFalse)) :=
  defines_of (value_put rfl rfl) rfl rfl rfl

theorem defines_call {returns : IrType} {callee : String} {args : List TypedOperand} :
    Defines n none custody (custody.put false (.call (some (.temp n)) returns callee args)) :=
  defines_of (value_put rfl rfl) rfl rfl rfl

theorem Defines.intact (defines : Defines n origin custody later) (mem : n ∈ region)
    (from' : ∀ m turn, origin = some (m, turn) →
      m ∈ region ∧ later.ledger.phase m ≠ .spent ∧ later.ledger.turns m = turn) :
    Intact region later (.temp n) where
  own := by
    intro m eq
    cases eq
    exact mem
  slot := by
    intro m eq
    rw [defines.value] at eq
    cases eq
    exact ⟨mem, by simp [defines.phase]⟩
  content := by
    intro m turn eq
    rw [defines.value] at eq
    exact from' m turn (defines.origin ▸ eq)

theorem confined_of_mark (course : later.course = custody.course) {phase : Phase}
    (ledger : later.ledger = custody.ledger.mark n phase) : Confined [n] custody later where
  value := fun _ _ => by rw [course]
  turns := fun _ _ => by rw [ledger]; rfl
  origin := fun _ _ => by rw [ledger]; rfl
  unspent := by
    intro m other unspent
    rw [ledger]
    simpa [Ledger.mark, List.mem_singleton.not.mp other] using unspent
  given := by
    intro m other given
    rw [ledger]
    simpa [Ledger.mark, List.mem_singleton.not.mp other] using given

theorem confined_of_settle (course : later.course = custody.course)
    (ledger : later.ledger = custody.ledger.settle) : Confined region custody later where
  value := fun _ _ => by rw [course]
  turns := fun _ _ => by rw [ledger]; rfl
  origin := fun _ _ => by rw [ledger]; rfl
  unspent := fun _ _ unspent => by rw [ledger]; exact unspent
  given := fun _ _ given => by rw [ledger]; exact given

/-- A store uses up at most the slot that the stored value was loaded from. -/
theorem confined_store {stored : TypedOperand} {dest : Operand}
    (intact : Intact region custody stored.operand) :
    Confined region custody (custody.put false (.store stored dest)) := by
  have course : (custody.put false (.store stored dest)).course = custody.course :=
    course_put (by simp [Instr.dest])
  have ledger := @Ledger.put_store custody.ledger false stored.type (custody.eval stored.operand)
    (custody.eval dest)
  change (custody.put false (.store stored dest)).ledger = _ ∨ ∃ n turn, _ ∧
    (custody.put false (.store stored dest)).ledger = _ at ledger
  rcases ledger with ledger | ⟨n, turn, loaded, ledger⟩
  · exact confined_of_settle course ledger
  · apply (confined_of_mark course ledger).mono
    simpa using (intact.content n turn loaded).1

/-- A store to a slot moves nothing out. -/
theorem confined_store_temp {stored : TypedOperand} (dest : custody.eval (.temp n) = .temp n) :
    Confined region custody (custody.put false (.store stored (.temp n))) := by
  have course : (custody.put false (.store stored (.temp n))).course = custody.course :=
    course_put (by simp [Instr.dest])
  have ledger : (custody.put false (.store stored (.temp n))).ledger = custody.ledger.settle := by
    show custody.ledger.put false (.store ⟨stored.type, custody.eval stored.operand⟩
        (custody.eval (.temp n))) = _
    rw [dest]
    rfl
  exact confined_of_settle course ledger

theorem confined_call {returns : IrType} {callee : String} {args : List TypedOperand} :
    Confined region custody (custody.put false (.call none returns callee args)) := by
  have course : (custody.put false (.call none returns callee args)).course = custody.course :=
    course_put (by simp [Instr.dest])
  have ledger := @Ledger.put_call custody.ledger returns callee
    (args.map fun arg => TypedOperand.mk arg.type (custody.eval arg.operand))
  change (custody.put false (.call none returns callee args)).ledger = _ ∨ ∃ n,
    (custody.put false (.call none returns callee args)).ledger = _ at ledger
  rcases ledger with ledger | ⟨n, ledger⟩
  · exact confined_of_settle course ledger
  · refine ⟨fun _ _ => by rw [course], fun _ _ => by rw [ledger]; rfl,
      fun _ _ => by rw [ledger]; rfl, ?_, ?_⟩
    · intro m _ unspent
      rw [ledger]
      by_cases eq : m = n
      · simp [Ledger.mark, eq]
      · simpa [Ledger.mark, eq] using unspent
    · intro m _ given
      rw [ledger]
      by_cases eq : m = n
      · simp [Ledger.mark, eq]
      · simpa [Ledger.mark, eq] using given

/-- A call gives its result to the slot that was allocated right before it. -/
theorem given_call {returns : IrType} {callee : String} {args : List TypedOperand}
    {pointer : IrType} (value : custody.eval (.temp n) = .temp n)
    (fresh : custody.ledger.fresh = some n) :
    (custody.put false (.call none returns callee (args ++ [⟨pointer, .temp n⟩]))).ledger =
      custody.ledger.mark n .given := by
  have last : Operand.under custody.course.value (.temp n) = .temp n := value
  simp [put, Instr.under, last, Ledger.put, Operand.temp?, Ledger.pass, fresh]

/-- A slot that holds the result of a call can be torn down, which uses it up. -/
theorem admits_release {callee : String} {pointer : IrType} {address : Operand}
    (value : custody.eval address = .temp n) (given : custody.ledger.phase n = .given) :
    custody.Admits true (.call none .void callee [⟨pointer, address⟩]) := by
  have eq : Instr.under custody.course.value (.call none .void callee [⟨pointer, address⟩]) =
      .call none .void callee [⟨pointer, .temp n⟩] := by
    show Instr.call none .void callee [⟨pointer, custody.eval address⟩] = _
    rw [value]
  unfold Admits
  rw [eq]
  refine ⟨?_, ?_, fun _ => ⟨n, callee, pointer, rfl, given⟩⟩
  · intro m touches
    have eq : m = n := by simpa [Instr.Touches, Instr.reads] using touches
    simp [eq, given]
  · intro stored operand name eq
    cases eq

theorem confined_release {callee : String} {pointer : IrType} {address : Operand}
    (value : custody.eval address = .temp n) :
    Confined [n] custody (custody.put true (.call none .void callee [⟨pointer, address⟩])) := by
  have course : (custody.put true (.call none .void callee [⟨pointer, address⟩])).course =
      custody.course := course_put (by simp [Instr.dest])
  have ledger : (custody.put true (.call none .void callee [⟨pointer, address⟩])).ledger =
      custody.ledger.mark n .spent := by
    show custody.ledger.put true (.call none .void callee [⟨pointer, custody.eval address⟩]) = _
    rw [value]
    rfl
  exact confined_of_mark course ledger

/-- A merge gives an operand: that of the block that control came from. -/
structure Arrives (incoming : List (Operand × BlockId)) (operand : Operand) (custody : Custody) :
    Prop where
  found : ∃ block, incoming.find? (fun pair => custody.course.source = some pair.2) =
    some (operand, block)
  value : operand.under custody.course.entering = custody.eval operand

/-- A register stands for what came in. -/
structure Merges (n : Nat) (operand : Operand) (custody later : Custody) : Prop where
  confined : Confined [n] custody later
  value : later.eval (.temp n) = custody.eval operand
  entering : later.course.entering = custody.course.entering
  source : later.course.source = custody.course.source

theorem merges_phi {type : IrType} {incoming : List (Operand × BlockId)}
    (arrives : Arrives incoming operand custody) :
    Merges n operand custody (custody.put false (.phi (.temp n) type incoming)) := by
  obtain ⟨⟨block, found⟩, value⟩ := arrives
  have merged : custody.course.merged? (.phi (.temp n) type incoming) = some (custody.eval operand) := by
    simp [Course.merged?, Instr.incoming?, found, value]
  have course : (custody.put false (.phi (.temp n) type incoming)).course =
      ⟨Function.update custody.course.value n (custody.eval operand), custody.course.entering,
        custody.course.source⟩ := by
    simp [put, Course.put, Instr.dest, merged]
  refine ⟨?_, ?_, by rw [course], by rw [course]⟩
  · exact confined_of_define (by rw [course]) rfl rfl rfl
  · show (custody.put false _).course.value n = _
    rw [course]
    exact Function.update_self _ _ _

/-- What came in intact is still intact under its new name. -/
theorem Merges.intact (merges : Merges n operand custody later)
    (intact : Intact region custody operand) (new : n ∉ region) :
    Intact (n :: region) later (.temp n) := by
  have apart : region.Disjoint [n] := by simpa using new
  have still := merges.confined
  refine ⟨by simp, ?_, ?_⟩
  · intro m same
    rw [merges.value] at same
    obtain ⟨mem, unspent⟩ := intact.slot m same
    exact ⟨List.mem_cons_of_mem _ mem, still.unspent m (apart mem) unspent⟩
  · intro m turn same
    rw [merges.value, still.origin? intact apart] at same
    obtain ⟨mem, unspent, turns⟩ := intact.content m turn same
    exact ⟨List.mem_cons_of_mem _ mem, still.unspent m (apart mem) unspent,
      (still.turns m (apart mem)).trans turns⟩

end

end Custody

namespace Code

open Custody

variable {region : List Nat} {custody : Custody} {post : Custody → Prop} {role : Role} {n : Nat}

theorem runs_alloca {type : IrType}
    (h : ∀ later, Defines n none custody later → later.ledger.fresh = some n → post later) :
    (instr .plain (.alloca (.temp n) type)).Runs custody post := by
  apply runs_instr (by simp)
  · exact @admits_of_intact [] _ _ (by simp [Instr.reads])
  · exact h _ defines_alloca.1 defines_alloca.2

/-- What is loaded from an intact address is intact, and the address stays so. -/
theorem runs_load {type : IrType} {source : Operand} (intact : Intact region custody source)
    (new : n ∉ region)
    (h : ∀ later, Confined [n] custody later → Intact (region ++ [n]) later (.temp n) → post later) :
    (instr .plain (.load (.temp n) type source)).Runs custody post := by
  have defines : Defines n (custody.ledger.slot? (custody.eval source)) custody
      (custody.put false (.load (.temp n) type source)) := defines_load
  apply runs_instr (by simp)
  · exact admits_of_intact (by simpa [Instr.reads] using intact)
  · apply h _ defines.confined
    apply defines.intact (by simp)
    intro m turn loaded
    obtain ⟨slot, turns⟩ := Ledger.slot?_eq_some.mp loaded
    obtain ⟨inside, unspent⟩ := intact.slot m slot
    have other : m ∉ [n] := by
      intro mem
      exact new (List.mem_singleton.mp mem ▸ inside)
    exact ⟨List.mem_append_left _ inside, defines.confined.unspent m other unspent,
      (defines.confined.turns m other).trans turns⟩

theorem runs_elementPtr {type : IrType} {base : Operand} {indices : List TypedOperand}
    (intact : Intact region custody base)
    (others : ∀ index ∈ indices, Intact region custody index.operand)
    (h : ∀ later, Defines n none custody later → post later) :
    (instr .plain (.elementPtr (.temp n) type base indices)).Runs custody post := by
  apply runs_instr (by simp)
  · exact admits_of_intact (by simpa [Instr.reads] using ⟨intact, others⟩)
  · exact h _ defines_elementPtr

theorem runs_select {flag : Operand} {onTrue onFalse : TypedOperand}
    (intact : Intact region custody flag) (first : Intact region custody onTrue.operand)
    (second : Intact region custody onFalse.operand)
    (h : ∀ later, Defines n none custody later → post later) :
    (instr .plain (.select (.temp n) flag onTrue onFalse)).Runs custody post := by
  apply runs_instr (by simp)
  · exact admits_of_intact (by simpa [Instr.reads] using ⟨intact, first, second⟩)
  · exact h _ defines_select

theorem runs_store {stored : TypedOperand} {dest : Operand} (other : role ≠ .release)
    (intact : Intact region custody stored.operand) (there : Intact region custody dest)
    (h : ∀ later, Confined region custody later → post later) :
    (instr role (.store stored dest)).Runs custody post := by
  apply runs_instr other
  · exact admits_of_intact (by simpa [Instr.reads] using ⟨intact, there⟩)
  · exact h _ (confined_store intact)

/-- A store to a new slot moves nothing out. -/
theorem runs_spill {stored : TypedOperand} (intact : Intact region custody stored.operand)
    (there : Intact region custody (.temp n)) (value : custody.eval (.temp n) = .temp n)
    (h : ∀ later, Confined [] custody later → post later) :
    (instr .plain (.store stored (.temp n))).Runs custody post := by
  apply runs_instr (by simp)
  · exact admits_of_intact (by simpa [Instr.reads] using ⟨intact, there⟩)
  · exact h _ (confined_store_temp value)

theorem runs_call {callee : String} {args : List TypedOperand}
    (intact : ∀ arg ∈ args, Intact region custody arg.operand)
    (h : ∀ later, Confined [] custody later → post later) :
    (instr .plain (.call none .void callee args)).Runs custody post := by
  apply runs_instr (by simp)
  · exact admits_of_intact (by simpa [Instr.reads] using intact)
  · exact h _ confined_call

/-- A call gets a new slot as the place for its result. -/
theorem runs_call_result {type pointer : IrType} {callee : String} {args : List TypedOperand}
    {rest : Code}
    (intact : ∀ arg ∈ args, Intact region custody arg.operand) (new : n ∉ region)
    (h : ∀ later, Confined [n] custody later → Intact [n] later (.temp n) →
      later.eval (.temp n) = .temp n → later.ledger.phase n = .given → rest.Runs later post) :
    (seq (instr .plain (.alloca (.temp n) type))
      (seq (instr .plain (.call none .void callee (args ++ [⟨pointer, .temp n⟩])))
        rest)).Runs custody post := by
  apply runs_seq
  apply runs_alloca
  intro placed defines fresh
  apply runs_seq
  have slot : Intact [n] placed (.temp n) := defines.intact (by simp) (by simp)
  apply runs_instr (by simp)
  · apply @admits_of_intact (region ++ [n])
    intro operand mem
    obtain ⟨arg, among, rfl⟩ := List.mem_map.mp mem
    rcases List.mem_append.mp among with among | among
    · exact ((intact arg among).confined defines.confined (by simpa using new)).mono (by simp)
    · cases List.mem_singleton.mp among
      exact slot.mono (by simp)
  · have given : Confined [] placed
        (placed.put false (.call none .void callee (args ++ [⟨pointer, .temp n⟩]))) := confined_call
    apply h
    · exact defines.confined.append given
    · exact slot.confined given (List.disjoint_nil_right _)
    · rw [given.eval slot (List.disjoint_nil_right _), defines.value]
    · rw [given_call defines.value fresh]
      simp [Ledger.mark]

/-- A call that says by its result whether it did something. -/
theorem runs_next {returns : IrType} {callee : String} {args : List TypedOperand}
    (other : role ≠ .release) (intact : ∀ arg ∈ args, Intact region custody arg.operand)
    (h : ∀ later, Defines n none custody later → post later) :
    (instr role (.call (some (.temp n)) returns callee args)).Runs custody post := by
  apply runs_instr other
  · exact admits_of_intact (by simpa [Instr.reads] using intact)
  · exact h _ defines_call

theorem runs_teardown {callee : String} {pointer : IrType} {address : Operand}
    (value : custody.eval address = .temp n) (given : custody.ledger.phase n = .given)
    (h : ∀ later, Confined [n] custody later → post later) :
    (instr .release (.call none .void callee [⟨pointer, address⟩])).Runs custody post := by
  apply runs_release
  · exact admits_release value given
  · exact h _ (confined_release value)

theorem runs_phi {type : IrType} {incoming : List (Operand × BlockId)} {operand : Operand}
    (arrives : Arrives incoming operand custody)
    (h : ∀ later, Merges n operand custody later → post later) :
    (instr .plain (.phi (.temp n) type incoming)).Runs custody post := by
  apply runs_instr (by simp)
  · exact admits_merge
  · exact h _ (merges_phi arrives)

end Code

end LlvmBackend
