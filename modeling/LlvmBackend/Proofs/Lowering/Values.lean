import LlvmBackend.Proofs.Lowering.Steps

/-! # Values, ownership and calls

What the steps for single values emit, up to the call of a function.
-/

namespace LlvmBackend

open Ir

namespace FunctionState

/-- Code was emitted from one state to another, and control goes on behind it. Nothing was bound. -/
structure Makes (slots : List Instr) (state : FunctionState) (code : Code)
    (later : FunctionState) : Prop where
  ready : later.Ready slots
  build : Build none (state.site slots) code (later.site slots)
  keeps : state.Keeps later

namespace Makes

variable {slots : List Instr} {state later : FunctionState}

theorem built {code : Code} (made : Makes slots state code later) (ready : state.Ready slots) :
    Built none (state.site slots) (later.site slots) :=
  made.build.built ready.valid ready.isOpen (by simp)

theorem of {code : Code} {site : Site} (ready : state.Ready slots)
    (build : Build none (state.site slots) code site) (isOpen : site.Open)
    (eq : later.site slots = site) (keeps : state.Keeps later) : Makes slots state code later := by
  subst eq
  exact ⟨⟨(build.built ready.valid ready.isOpen (by simp)).grows.after, isOpen⟩, build, keeps⟩

/-- A block that code may jump to stays one. -/
theorem exit {code : Code} {fin : BlockId} (made : Makes slots state code later)
    (ready : state.Ready slots) (exit : (state.site slots).Exit fin) :
    (later.site slots).Exit fin := by
  have grows := (made.built ready).grows
  exact exit.grows grows (grows.exit_ne exit.lt exit.ne)

theorem skip (ready : state.Ready slots) : Makes slots state .skip state :=
  ⟨ready, .skip, .refl state⟩

theorem seq {last : FunctionState} {first second : Code} (made₁ : Makes slots state first later)
    (made₂ : Makes slots later second last) : Makes slots state (.seq first second) last :=
  ⟨made₂.ready, .seq made₁.build made₁.ready.isOpen made₂.build, made₁.keeps.trans made₂.keeps⟩

end Makes

end FunctionState

open FunctionState

/-- A step emits code that stands in a relation to what the step gives. -/
def Emits {α : Type} (slots : List Instr) (step : Lowering α) (state : FunctionState)
    (rel : α → Code → Prop) : Prop :=
  Yields step state fun value later => ∃ code, rel value code ∧ Makes slots state code later

namespace Emits

variable {α β : Type} {slots : List Instr} {state : FunctionState} {rel : α → Code → Prop}

theorem done {value : α} (ready : state.Ready slots) (h : rel value .skip) :
    Emits slots (pure value) state rel :=
  Yields.done ⟨.skip, h, .skip ready⟩

theorem bind {step : Lowering α} {next : α → Lowering β} {rel' : β → Code → Prop}
    (h : Emits slots step state rel)
    (goesOn : ∀ value code later, rel value code → Makes slots state code later →
      Emits slots (next value) later fun result code' => rel' result (.seq code code')) :
    Emits slots (step >>= next) state rel' := by
  refine Yields.bind h ?_
  rintro value later ⟨code, related, made⟩
  refine (goesOn value code later related made).mono ?_
  rintro result last ⟨code', related', made'⟩
  exact ⟨_, related', made.seq made'⟩

/-- What comes last only changes the value. -/
theorem last {step : Lowering α} {change : α → β} {rel' : β → Code → Prop}
    (h : Emits slots step state rel) (le : ∀ value code, rel value code → rel' (change value) code) :
    Emits slots (step >>= fun value => pure (change value)) state rel' := by
  refine Yields.bind h ?_
  rintro value later ⟨code, related, made⟩
  exact Yields.done ⟨code, le value code related, made⟩

theorem map {step : Lowering α} {change : α → β} {rel' : β → Code → Prop}
    (h : Emits slots step state rel) (le : ∀ value code, rel value code → rel' (change value) code) :
    Emits slots (change <$> step) state rel' := by
  refine Yields.map h ?_
  rintro value later ⟨code, related, made⟩
  exact ⟨code, le value code related, made⟩

theorem mono {step : Lowering α} {rel' : α → Code → Prop} (h : Emits slots step state rel)
    (le : ∀ value code, rel value code → rel' value code) : Emits slots step state rel' := by
  refine Yields.mono h ?_
  rintro value later ⟨code, related, made⟩
  exact ⟨code, le value code related, made⟩

end Emits

namespace Lowering

variable {slots : List Instr} {state : FunctionState}

/-! ## Steps that emit nothing -/

theorem ofExcept_yields {α : Type} {value : Except CodegenError α}
    (proper : FailsProperly value) :
    Yields (ofExcept value) state fun result later => value = .ok result ∧ later = state := by
  cases value with
  | ok value => exact Yields.done ⟨rfl, rfl⟩
  | error error => exact Yields.fails (proper error rfl)

theorem get_yields : Yields (get : Lowering FunctionState) state fun result later =>
    result = state ∧ later = state :=
  Yields.gets ⟨rfl, rfl⟩

/-- The name of the function is only asked for to fail. -/
theorem refuse_yields {α : Type} {error : String → CodegenError}
    {post : α → FunctionState → Prop} (proper : ∀ name, (error name).Proper) :
    Yields (functionName >>= fun name => throw (error name)) state post := by
  have named : Yields functionName state fun _ _ => True :=
    Yields.bind get_yields fun _ _ _ => Yields.done trivial
  exact named.bind fun name _ _ => Yields.fails (proper name)

theorem currentBlock_yields (slots : List Instr) : Yields currentBlock state fun id later =>
    id = (state.site slots).current ∧ later = state :=
  Yields.bind get_yields fun _ _ h => Yields.done ⟨congrArg (·.builder.current) h.1, h.2⟩

theorem isTerminated_yields : Yields isTerminated state fun ended later =>
    ended = state.builder.isTerminated ∧ later = state :=
  Yields.bind get_yields fun _ _ h => Yields.done ⟨congrArg (·.builder.isTerminated) h.1, h.2⟩

theorem required_yields (value : Option Value) :
    Yields (required value) state fun result later => value = some result ∧ later = state := by
  cases value with
  | none => exact refuse_yields fun _ => trivial
  | some value => exact Yields.done ⟨rfl, rfl⟩

theorem valueIr_yields (env : Surroundings) (type : TypeId) :
    Yields (valueIr env type) state fun ir later =>
      type ≠ Registry.void ∧ ir = ⟨env.types.ir type⟩ ∧ later = state := by
  by_cases void : type = Registry.void
  · simp only [valueIr, if_pos void]
    rw [← bind_assoc]
    have refused : Yields (functionName >>= fun name => throw (.voidValue name) : Lowering PUnit)
        state fun _ _ => False := refuse_yields fun _ => trivial
    exact refused.bind fun _ _ => False.elim
  · simp only [valueIr, if_neg void]
    exact Yields.done ⟨void, rfl, rfl⟩

/-! ## Instructions -/

theorem put_emits (ready : state.Ready slots) (role : Role) {instr : Instr}
    (plain : instr.incoming? = none) (dest : instr.dest = none) :
    Emits slots (emit instr) state fun _ code => code = .instr role instr := by
  refine (put_yields ready (by simp [Instr.number?, dest])).mono ?_
  rintro _ later ⟨eq, keeps⟩
  have isOpen := (Site.open_put instr).mpr ready.isOpen
  exact ⟨_, rfl, .of ready (.instr plain (.inl dest)) isOpen eq keeps⟩

theorem define_makes (ready : state.Ready slots) (role : Role) (instr : Operand → Instr)
    (dest : ∀ n, (instr (.temp n)).dest = some (.temp n))
    (plain : ∀ n, (instr (.temp n)).incoming? = none) {later : FunctionState}
    (eq : later.site slots =
      (state.site slots).put (instr (.temp (state.site slots).nextTemp)))
    (keeps : state.Keeps later) :
    Makes slots state (.instr role (instr (.temp (state.site slots).nextTemp))) later := by
  have isOpen := (Site.open_put (instr (.temp (state.site slots).nextTemp))).mpr ready.isOpen
  exact .of ready (.instr (plain _) (.inr (dest _))) isOpen eq keeps

/-- A temporary is drawn and defined at once, and the lowering goes on with it. -/
theorem define_emits {α : Type} {rel : α → Code → Prop} (ready : state.Ready slots)
    (instr : Operand → Instr) (dest : ∀ n, (instr (.temp n)).dest = some (.temp n))
    (plain : ∀ n, (instr (.temp n)).incoming? = none) {next : Operand → Lowering α}
    (goesOn : ∀ n later, Makes slots state (.instr .plain (instr (.temp n))) later →
      Emits slots (next (.temp n)) later fun value code =>
        rel value (.seq (.instr .plain (instr (.temp n))) code)) :
    Emits slots (temp >>= fun dest => emit (instr dest) >>= fun _ => next dest) state rel := by
  refine define_yields ready instr dest fun later eq keeps => ?_
  have made := define_makes ready .plain instr dest plain eq keeps
  refine Yields.mono (goesOn _ later made) ?_
  rintro value last ⟨code, related, made'⟩
  exact ⟨_, related, made.seq made'⟩

theorem define_last {α : Type} {rel : α → Code → Prop} (ready : state.Ready slots)
    (instr : Operand → Instr) (dest : ∀ n, (instr (.temp n)).dest = some (.temp n))
    (plain : ∀ n, (instr (.temp n)).incoming? = none) {change : Operand → α}
    (le : ∀ n, rel (change (.temp n)) (.instr .plain (instr (.temp n)))) :
    Emits slots (temp >>= fun dest => emit (instr dest) >>= fun _ => pure (change dest)) state
      rel := by
  refine define_yields ready instr dest fun later eq keeps => ?_
  exact Yields.done ⟨_, le _, define_makes ready .plain instr dest plain eq keeps⟩

variable (env : Surroundings)

theorem obtainValue_emits (ready : state.Ready slots) (value : Value) :
    Emits slots (obtainValue env value) state fun result code =>
      result.1.type = ⟨env.types.ir value.type⟩ ∧
        Translation.Loads env.types value code result.1.operand result.2 := by
  obtain ⟨type, storage, binding⟩ := value
  refine (valueIr_yields env type).bind ?_
  rintro _ _ ⟨valued, rfl, rfl⟩
  cases storage with
  | direct operand => exact Emits.done ready ⟨rfl, .direct valued⟩
  | cached address loaded => exact Emits.done ready ⟨rfl, .cached valued⟩
  | addressed address =>
      exact define_last ready (fun dest => .load dest ⟨env.types.ir type⟩ address) (fun _ => rfl)
        (fun _ => rfl) fun n => ⟨rfl, .addressed valued⟩

theorem operandOf_emits (ready : state.Ready slots) (value : Value) :
    Emits slots (operandOf env value) state fun operand code =>
      ∃ later, Translation.Loads env.types value code operand later :=
  (obtainValue_emits env ready value).last fun _ _ loads => ⟨_, loads.2⟩

theorem obtainAddress_emits (ready : state.Ready slots) (value : Value) :
    Emits slots (obtainAddress env value) state fun result code =>
      result.1.type = .ptr ⟨env.types.ir value.type⟩ ∧
        Translation.Places env.types value code result.1.operand result.2 := by
  obtain ⟨type, storage, binding⟩ := value
  refine (valueIr_yields env type).bind ?_
  rintro _ _ ⟨valued, rfl, rfl⟩
  cases storage with
  | addressed address => exact Emits.done ready ⟨rfl, .addressed valued⟩
  | cached address loaded => exact Emits.done ready ⟨rfl, .cached valued⟩
  | direct operand =>
      refine define_emits ready (fun slot => .alloca slot ⟨env.types.ir type⟩) (fun _ => rfl)
        (fun _ => rfl) fun n later made => ?_
      refine (put_emits made.ready .plain rfl rfl).last ?_
      rintro _ _ rfl
      exact ⟨rfl, .direct valued⟩

/-- A value gets its address in the block in use. -/
theorem obtainAddress_stays (ready : state.Ready slots) (value : Value) :
    Yields (obtainAddress env value) state fun _ later =>
      (later.site slots).current = (state.site slots).current := by
  obtain ⟨type, storage, binding⟩ := value
  refine (valueIr_yields env type).bind ?_
  rintro _ _ ⟨_, rfl, rfl⟩
  cases storage with
  | addressed address | cached address loaded => exact Yields.done rfl
  | direct operand =>
      refine define_yields ready (fun slot => .alloca slot ⟨env.types.ir type⟩) (fun _ => rfl)
        fun later eq keeps => ?_
      have made := define_makes ready .plain (fun slot => .alloca slot ⟨env.types.ir type⟩) (fun _ => rfl)
        (fun _ => rfl) eq keeps
      refine (put_yields made.ready (by rfl)).bind ?_
      rintro _ last ⟨eq', _⟩
      exact Yields.done (by rw [eq', eq]; rfl)

/-! ## Ownership -/

theorem guarded_emits (ready : state.Ready slots) (flag : Nat) {instr : Instr}
    (plain : instr.incoming? = none) (dest : instr.dest = none) :
    Emits slots (guarded flag instr) state fun _ code => ∃ owned fin,
      code = .fork .release (.temp flag) owned fin
        (.seq (.instr .release instr) (.jump owned fin)) .skip := by
  refine twoBlocks_yields ready _ _ (fun owned fin => .condBr (.temp flag) owned fin)
    fun start branched keeps => ?_
  have course := guardCourse (.temp flag) "release" "release-fin" ready.valid ready.isOpen plain dest
  have ready₁ : start.Ready slots :=
    ⟨branched ▸ course.side₁.grows.after, branched ▸ course.side₁.isOpen⟩
  refine (put_yields ready₁ (by simp [Instr.number?, dest])).bind ?_
  rintro _ middle ⟨carried, keeps₁⟩
  have isOpen := carried ▸ (Site.open_put instr).mpr ready₁.isOpen
  have ready₂ : middle.Ready slots := ⟨carried ▸ ready₁.valid.put
    ⟨ready₁.isOpen, by simp [Instr.number?, dest], by simp [plain]⟩, isOpen⟩
  refine (terminate_yields ready₂ _).bind ?_
  rintro _ closing ⟨closed, keeps₂⟩
  refine (switchTo_yields slots _).mono ?_
  rintro _ last ⟨eq, keeps₃⟩
  rw [closed, carried, branched] at eq
  refine ⟨_, ⟨_, _, rfl⟩, .of ready (.guard plain dest) course.side₂.isOpen eq ?_⟩
  exact ((keeps.trans keeps₁).trans keeps₂).trans keeps₃

theorem teardownCall_eq (type : TypeId) (address : Operand) :
    teardownCall env type address =
      (env.types.method type teardown).map fun entry =>
        Translation.teardownCall env.types type entry address := by
  cases method : env.types.method type teardown <;>
    simp [teardownCall, Translation.teardownCall, method]

theorem release_emits (ready : state.Ready slots) (value : Value) :
    Emits slots (release env value) state fun _ code => Translation.Releases env.types value code := by
  unfold release
  cases address : value.address with
  | none => exact Emits.done ready (.nothing (by simp [address]))
  | some place =>
      rw [Option.bind_some, teardownCall_eq]
      cases method : env.types.method value.type teardown with
      | none => exact Emits.done ready (.nothing (by simp [method]))
      | some entry =>
          rw [Option.map_some]
          cases binding : value.binding with
          | temporary =>
              refine (put_emits ready .release rfl rfl).mono ?_
              rintro _ _ rfl
              exact .always address method binding
          | conditional flag =>
              refine (guarded_emits ready flag rfl rfl).mono ?_
              rintro _ _ ⟨owned, fin, rfl⟩
              exact .guarded address method binding
          | stable | constant =>
              exact Emits.done ready (.nothing fun _ _ _ _ => by rw [binding]; rfl)

theorem releaseAll_emits (ready : state.Ready slots) (values : List Value) :
    Emits slots (releaseAll env values) state fun _ code =>
      Translation.ReleasesAll env.types values code := by
  induction values generalizing state with
  | nil => exact Emits.done ready .nil
  | cons value values ih =>
      refine (release_emits env ready value).bind fun _ code later releases made => ?_
      exact (ih made.ready).mono fun _ _ => .cons releases

/-! ## Calls -/

theorem passArg_emits (ready : state.Ready slots) (arg : Value) :
    Emits slots (passArg env arg) state fun result code =>
      Translation.Passes env.types arg code result.1 result.2 := by
  unfold passArg
  split
  · next byValue =>
      refine (obtainValue_emits env ready arg).mono ?_
      rintro ⟨⟨_, operand⟩, later⟩ code ⟨rfl, loads⟩
      exact .byValue byValue loads
  · next byAddress =>
      refine (obtainAddress_emits env ready arg).mono ?_
      rintro ⟨⟨_, address⟩, later⟩ code ⟨rfl, places⟩
      exact .byAddress byAddress places

theorem passArgs_emits (ready : state.Ready slots) (args : List Value) :
    Emits slots (passArgs env args) state fun result code =>
      Translation.PassesAll env.types args code result.1 result.2 := by
  induction args generalizing state with
  | nil => exact Emits.done ready .nil
  | cons arg args ih =>
      refine (passArg_emits env ready arg).bind fun result code later passes made => ?_
      exact (ih made.ready).last fun _ _ => .cons passes

theorem bindFunction_proper (types : Registry) (table : SignatureTable) (name : String)
    (args : List TypeId) : FailsProperly (Callee.bindFunction types table name args) := by
  unfold Callee.bindFunction
  repeat' split
  all_goals first | exact .error trivial | exact .ok _

theorem bindMethod_proper (types : Registry) (type : TypeId) (name : String) :
    FailsProperly (Callee.bindMethod types type name) := by
  unfold Callee.bindMethod
  split
  · exact .error trivial
  · exact (FailsProperly.resolve types _).map _

theorem bind_proper (callee : Callee) (types : Registry) (table : SignatureTable)
    (args : List TypeId) : FailsProperly (callee.bind types table args) := by
  unfold Callee.bind
  split
  · split
    · split
      · exact bindFunction_proper types table _ _
      · exact bindMethod_proper types _ _
    · exact .error trivial
  · exact bindFunction_proper types table _ _
  · exact bindMethod_proper types _ _

theorem dispatch_emits (ready : state.Ready slots) (callee : Callee) (args : List Value) :
    Emits slots (dispatch env callee args) state fun result code =>
      Translation.Dispatches env callee args code result := by
  refine (ofExcept_yields (bind_proper callee _ _ _)).bind ?_
  rintro target _ ⟨bound, rfl⟩
  refine (passArgs_emits env ready args).bind fun passed code later passes made => ?_
  obtain ⟨operands, args'⟩ := passed
  by_cases void : target.returns = Registry.void
  · simp only [resultSlot, if_pos void, pure_bind]
    refine (put_emits made.ready .plain rfl rfl).bind ?_
    rintro _ _ last rfl made'
    refine (releaseAll_emits env made'.ready args').last fun _ _ releases => ?_
    simpa using .void bound passes void releases
  · simp only [resultSlot, if_neg void, bind_assoc, pure_bind]
    refine define_emits made.ready (fun slot => .alloca slot ⟨env.types.ir target.returns⟩)
      (fun _ => rfl) (fun _ => rfl) fun n middle made₁ => ?_
    refine (put_emits made₁.ready .plain rfl rfl).bind ?_
    rintro _ _ last rfl made'
    refine (releaseAll_emits env made'.ready args').last fun _ _ releases => ?_
    exact .result bound passes void releases

theorem coerceToBool_emits (ready : state.Ready slots) (value : Value) :
    Emits slots (coerceToBool env value) state fun result code =>
      Translation.Coerces env value code result := by
  unfold coerceToBool
  split
  · next bool => exact Emits.done ready (.already bool)
  · next other =>
      refine Yields.bind (dispatch_emits env ready .boolean [value]) ?_
      rintro result later ⟨code, dispatches, made⟩
      refine (required_yields result).mono ?_
      rintro flag _ ⟨rfl, rfl⟩
      exact ⟨code, .calls other dispatches, made⟩

/-- A value that becomes the flag of a branch. -/
theorem flag_emits (ready : state.Ready slots) (value : Value) :
    Emits slots (coerceToBool env value >>= operandOf env) state fun operand code =>
      Translation.Tests env value code operand := by
  refine (coerceToBool_emits env ready value).bind fun result code later coerces made => ?_
  refine (operandOf_emits env made.ready result).mono ?_
  rintro operand code' ⟨_, loads⟩
  exact .intro coerces loads

theorem negate_emits (ready : state.Ready slots) (value : Value) :
    Emits slots (negate env value) state fun result code =>
      Translation.Negates env value code result := by
  refine (operandOf_emits env ready value).bind ?_
  rintro flag code later ⟨_, loads⟩ made
  exact define_last made.ready
    (fun dest => .select dest flag ⟨.i1, .bool false⟩ ⟨.i1, .bool true⟩) (fun _ => rfl)
    (fun _ => rfl) fun n => .intro loads

end Lowering

end LlvmBackend
