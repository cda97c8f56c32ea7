import LlvmBackend.Proofs.Calls
import LlvmBackend.Proofs.Declarations

/-! # Calls and declarations

Each call of a generated module has the types that its callee is defined or declared with, but for
what tears down values of a type that is passed by value: that is called by address and declared
like any other method. Main statements: `Codegen.generate_calls_agree_iff` and, for the builtin types,
`Codegen.generate_calls_agree_builtin`.
-/

namespace LlvmBackend

open Ir Lowering

/-! ## Bound calls -/

namespace Callee

theorem eq_of_mismatch?_none {params args : List TypeId} (length : params.length = args.length)
    (agree : mismatch? params args = none) : params = args := by
  induction params generalizing args with
  | nil => exact (List.eq_nil_of_length_eq_zero length.symm).symm
  | cons param params ih =>
      cases args with
      | nil => cases length
      | cons arg args =>
          simp only [mismatch?, List.zip_cons_cons, List.find?_cons] at agree
          split at agree
          · cases agree
          · next same =>
              have same : param = arg := by simpa using same
              rw [same, ih (Nat.succ.inj length) agree]

theorem bindFunction_eq_ok {types : Registry} {table : SignatureTable} {name : String}
    {given : List TypeId} {target : Target}
    (bound : bindFunction types table name given = .ok target) :
    ∃ signature, table.get? name = some signature ∧ signature.params = given ∧
      target = ⟨signature.symbol, signature.returns⟩ := by
  unfold bindFunction at bound
  split at bound
  · cases bound
  · next signature found =>
      split at bound
      · cases bound
      · next length =>
          split at bound
          · cases bound
          · next agree =>
              cases bound
              exact ⟨signature, found, eq_of_mismatch?_none (not_not.mp length) agree, rfl⟩

theorem bindMethod_eq_ok {types : Registry} {type : TypeId} {name : String} {target : Target}
    (bound : bindMethod types type name = .ok target) :
    ∃ entry, types.method type name = some entry ∧
      types.resolve entry.returns = .ok target.returns ∧ target.symbol = entry.symbol := by
  unfold bindMethod at bound
  split at bound
  · cases bound
  · next entry found =>
      cases resolved : types.resolve entry.returns with
      | error error =>
          rw [resolved] at bound
          cases bound
      | ok returns =>
          rw [resolved] at bound
          cases bound
          exact ⟨entry, found, resolved, rfl⟩

end Callee

/-! ## Declared calls -/

/-- A call that is like a declaration for what it calls. -/
inductive Declared (types : Registry) (signatures : SignatureTable) : Declaration → Prop where
  | function (name : String) (signature : Signature) :
      signatures.get? name = some signature →
      Declared types signatures (Preamble.libraryDeclaration types signature)
  | method (type : TypeId) (name : String) (entry : MethodEntry) (call : Declaration) :
      types.method type name = some entry →
      Preamble.methodDeclaration types type name entry = .ok call →
      (name = teardown → ¬ types.isByValue type) →
      Declared types signatures call
  | argv : Declared types signatures (Preamble.argvDeclaration types)

section

variable {types : Registry} {signatures : SignatureTable} {type : TypeId} {target : Target}
  (callable : types.Callable)
include callable

/-- What common names stand for takes nothing but the value itself. -/
theorem declared_common {name : String} (known : name ∈ ["__bool__", "__str__"])
    (bound : Callee.bindMethod types type name = .ok target) :
    Declared types signatures ⟨target.symbol, .void, types.callTypes [type] target.returns⟩ := by
  obtain ⟨entry, found, resolved, symbol⟩ := Callee.bindMethod_eq_ok bound
  have ne : name ≠ next ∧ name ≠ teardown := by
    rcases List.mem_pair.mp known with rfl | rfl <;> decide
  have argument := callable.plain type name (List.mem_append_left ["__del__"] known) entry found
  rw [symbol]
  exact .method type name entry _ found
    (Preamble.methodDeclaration_of_none ne.1 argument resolved) fun eq => absurd eq ne.2

/-- What an operator stands for takes two operands. -/
theorem declared_operator {op : BinaryOperator} {entry : MethodEntry} {argument : TypeId}
    (found : types.method type op.method = some entry)
    (accepts : Translation.Accepts types entry argument)
    (bound : Callee.bindMethod types type op.method = .ok target) :
    Declared types signatures
      ⟨target.symbol, .void, types.callTypes [type, argument] target.returns⟩ := by
  obtain ⟨_, found', resolved, symbol⟩ := Callee.bindMethod_eq_ok bound
  cases found.symm.trans found'
  obtain ⟨named, asks⟩ := Option.isSome_iff_exists.mp (callable.operators type op entry found)
  have ne : op.method ≠ next ∧ op.method ≠ teardown := by cases op <;> decide
  rw [symbol]
  exact .method type op.method entry _ found (Preamble.methodDeclaration_of_some ne.1 asks
    (accepts named asks) resolved) fun eq => absurd eq ne.2

/-- What the source calls is called as it is declared. -/
theorem declared_of_bind {callee : Callee} {given : List TypeId}
    (suits : callee.Suits types given) (bound : callee.bind types signatures given = .ok target) :
    Declared types signatures ⟨target.symbol, .void, types.callTypes given target.returns⟩ := by
  cases callee with
  | function name =>
      obtain ⟨signature, found, rfl, rfl⟩ := Callee.bindFunction_eq_ok bound
      exact .function name signature found
  | method type name =>
      obtain ⟨op, rfl, entry, argument, found, rfl, accepts⟩ := suits
      exact declared_operator callable found accepts bound
  | protocol name shared =>
      have known : shared ∈ Callee.protocols.map Prod.snd := List.mem_map_of_mem suits
      cases given with
      | nil => cases bound
      | cons receiver others =>
          cases others with
          | cons => cases bound
          | nil =>
              simp only [Callee.bind] at bound
              split at bound
              · obtain ⟨signature, found, eq, rfl⟩ := Callee.bindFunction_eq_ok bound
                rw [← eq]
                exact .function name signature found
              · exact declared_common callable known bound

/-- All calls are like the declarations of what they call, but for what tears down values of a type
    that is passed by value. -/
theorem Calls.declared {call : Declaration} (calls : Calls types signatures call) :
    Declared types signatures call ∨ ∃ type entry, types.method type teardown = some entry ∧
      types.isByValue type ∧ call = ⟨entry.symbol, .void, [.ptr ⟨types.ir type⟩]⟩ := by
  cases calls with
  | bound callee given target suits bound => exact .inl (declared_of_bind callable suits bound)
  | tearsDown type entry found =>
      by_cases byValue : types.isByValue type
      · exact .inr ⟨type, entry, found, byValue, rfl⟩
      · refine .inl (.method type _ entry _ found ?_ fun _ => byValue)
        rw [Preamble.methodDeclaration_teardown callable found, Registry.paramIr, if_neg byValue]
  | goesOn receiver element entry found resolved =>
      exact .inl (.method receiver _ entry _ found (Preamble.methodDeclaration_next resolved)
        fun eq => absurd eq (by decide))
  | decodes arguments resolved =>
      refine .inl ?_
      rw [callable.arguments arguments (Registry.resolve_eq_ok.mp resolved)]
      exact .argv

end

/-! ## Functions -/

/-- What a declaration for a function would say. -/
def Ir.Function.declaration (function : Function) : Declaration :=
  ⟨function.name, function.returns, function.params.map Param.type⟩

/-- All that a module defines or declares for calls. -/
def Ir.Module.interface (module : Module) : List Declaration :=
  module.functions.map Function.declaration ++ module.preamble.declarations

/-- Parameters have the types that their names stand for, as these are passed. -/
theorem Lowering.types_addParams {types : Registry} {function : String}
    {params : List Tree.Param} {given : List TypeId} {opening : Opening}
    (entered : params.foldlM (Opening.addParam types function) {} = .ok opening)
    (resolved : List.Forall₂ (fun name type => types.resolve name = .ok type)
      (params.map Tree.Param.type) given) :
    opening.params.map Param.type = given.map types.paramIr := by
  have all := addParams_induct (motive := fun rest opening => ∃ missing,
    List.Forall₂ (fun name type => types.resolve name = .ok type) (rest.map Tree.Param.type)
      missing ∧ opening.params.map Param.type ++ missing.map types.paramIr =
        given.map types.paramIr) entered ⟨given, resolved, rfl⟩ ?_
  · obtain ⟨missing, none, eq⟩ := all
    cases none
    simpa using eq
  · rintro opening param rest type here _ ⟨missing, each, eq⟩
    cases each with
    | cons first others =>
        cases here.symm.trans first
        exact ⟨_, others, by simpa [withParam] using eq⟩

namespace Renders

variable {types : Registry} {signatures : SignatureTable} {entry : String} {source : Tree.Function}
  {function : Function}

theorem exists_header (renders : Renders types signatures entry source function) :
    ∃ start, Starts types entry source start ∧ function.declaration =
      ⟨start.header.name, start.header.returns, start.header.params.map Param.type⟩ := by
  obtain ⟨start, starts, emitted⟩ := renders
  cases emitted with
  | intro _ _ _ _ _ _ _ _ _ _ header =>
      simp only [Prod.mk.injEq] at header
      obtain ⟨name, returns, params, _⟩ := header
      exact ⟨start, starts, by rw [Function.declaration, name, returns, params]⟩

/-- A function that can be called is defined with the types of its signature. -/
theorem declaration_eq (renders : Renders types signatures entry source function)
    (other : source.name ≠ entry) {signature : Signature}
    (names : signature.Names types source.name source.returns (source.params.map (·.type))) :
    function.declaration = Preamble.libraryDeclaration types signature := by
  obtain ⟨start, starts, eq⟩ := renders.exists_header
  cases starts with
  | entry named => exact absurd named other
  | @function returns opening _ resolved entered =>
      cases resolved.symm.trans names.returns
      have params := Lowering.types_addParams entered names.params
      rw [eq, Preamble.libraryDeclaration, names.symbol, ← params]
      simp only [Start.ofOpening, Opening.addResult, Preamble.resultParam]
      split_ifs <;> simp

/-- The entry gives back a status, and other functions are called as in the source. -/
theorem declaration_cases (renders : Renders types signatures entry source function) :
    source.name = entry ∧ function.declaration.symbol = entrySymbol ∧
        function.declaration.returns = .i32 ∨
      source.name ≠ entry ∧ function.declaration.symbol = source.name := by
  obtain ⟨start, starts, eq⟩ := renders.exists_header
  rw [eq]
  cases starts with
  | entry named => exact .inl ⟨named, rfl, rfl⟩
  | function other => exact .inr ⟨other, rfl⟩

end Renders

/-! ## Modules -/

/-- The functions of a module are called like nothing else that calls can name. -/
structure Tree.Module.Apart (source : Tree.Module) (types : Registry) : Prop where
  distinct : (source.functions.map (·.name)).Nodup
  entry : ∀ function ∈ source.functions, function.name ≠ entrySymbol
  argv : ∀ function ∈ source.functions, function.name ≠ argvSymbol
  methods : ∀ function ∈ source.functions, ∀ type name, ∀ method ∈ types.method type name,
    function.name ≠ method.symbol

namespace Codegen

variable {types : Registry} {signatures : SignatureTable} {source : Tree.Module} {entry : String}
  {lowered : List Function} {methods : List Declaration} {call : Declaration}

/-- What the functions of a module are called by. -/
theorem mem_names_of_renders {name : String}
    (renders : List.Forall₂ (Renders types signatures entry) source.functions lowered) :
    name ∈ lowered.map (·.name) ↔
      name = entrySymbol ∧ entry ∈ source.functions.map (·.name) ∨
        ∃ function ∈ source.functions, function.name ≠ entry ∧ function.name = name := by
  rw [names_of_renders renders]
  simp only [List.mem_map, exists_exists_and_eq_and, functionSymbol]
  constructor
  · rintro ⟨function, mem, eq⟩
    split at eq
    · next named => exact .inl ⟨eq.symm, function, mem, named⟩
    · next other => exact .inr ⟨function, mem, other, eq⟩
  · rintro (⟨rfl, function, mem, named⟩ | ⟨function, mem, other, rfl⟩)
    · exact ⟨function, mem, if_pos named⟩
    · exact ⟨function, mem, if_neg other⟩

/-- Only the entry has a function's symbol that is no name of the source, and it gives back a
    status. -/
theorem returns_of_defined
    (renders : List.Forall₂ (Renders types signatures entry) source.functions lowered)
    (defined : call ∈ lowered.map Function.declaration)
    (other : ∀ function ∈ source.functions, function.name ≠ entry → function.name ≠ call.symbol) :
    call.returns = .i32 := by
  obtain ⟨function, mem, rfl⟩ := List.mem_map.mp defined
  obtain ⟨declared, mem, renders⟩ := exists_renders renders function mem
  rcases renders.declaration_cases with ⟨_, _, returns⟩ | ⟨ne, eq⟩
  · exact returns
  · exact absurd eq.symm (other declared mem ne)

section

variable (apart : source.Apart types)
  (collected : SignatureTable.collect source types entry = .ok signatures)
include apart collected

/-- What is called as it is declared tears down no values that are passed by value. -/
theorem not_tearsDownByValue (callable : types.Callable)
    (declared : Declared types signatures call) : ¬ types.TearsDownByValue call.symbol := by
  rintro ⟨type, method, found, byValue, eq⟩
  cases declared with
  | function name signature there =>
      have origin := SignatureTable.origin_of_collect collected there
      have eq : method.symbol = name := eq.trans origin.symbol
      cases origin with
      | function declared mem _ named =>
          exact apart.methods declared mem _ _ _ found (named.trans eq.symm)
      | library returns params mem =>
          exact (callable.apart found).1 (eq ▸ List.mem_map_of_mem mem)
  | method type' name method' call found' declares byAddress =>
      have eq := eq.trans (Preamble.symbol_methodDeclaration declares).1
      obtain ⟨rfl, rfl⟩ := callable.unique found found' eq
      exact byAddress rfl byValue
  | argv => exact (callable.apart found).2 eq

/-- What is called as it is declared is a function of the module, or it can be declared. -/
theorem defined_or_candidate
    (renders : List.Forall₂ (Renders types signatures entry) source.functions lowered)
    (derived : Preamble.methodDeclarations types = .ok methods)
    (declared : Declared types signatures call) :
    (call ∈ lowered.map Function.declaration ∧ call.symbol ≠ entrySymbol) ∨
      call ∈ Preamble.candidates types signatures methods ∧
        ∀ function ∈ source.functions, function.name ≠ entry → function.name ≠ call.symbol := by
  have candidate := @Preamble.mem_candidates types signatures methods derived call
  cases declared with
  | function name signature found =>
      have origin := SignatureTable.origin_of_collect collected found
      have symbol : (Preamble.libraryDeclaration types signature).symbol = name := origin.symbol
      rw [symbol]
      cases origin with
      | function declared mem other named names =>
          cases named
          obtain ⟨function, there, renders⟩ := exists_rendered renders declared mem
          have eq := renders.declaration_eq other names
          exact .inl ⟨List.mem_map.mpr ⟨function, there, eq⟩, apart.entry declared mem⟩
      | library _ _ _ _ builtin others =>
          exact .inr ⟨candidate.mpr (.inr (.inl ⟨name, signature, found, builtin, rfl⟩)), others⟩
  | method type name method call found declares =>
      refine .inr ⟨candidate.mpr (.inl ⟨type, name, method, found, declares⟩), ?_⟩
      rw [(Preamble.symbol_methodDeclaration declares).1]
      exact fun function mem _ => apart.methods function mem _ _ _ found
  | argv =>
      exact .inr ⟨candidate.mpr (.inr (.inr rfl)), fun function mem _ => apart.argv function mem⟩

/-- What is called as it is declared has the symbol of the entry only if a method has it. -/
theorem symbol_ne_entry (others : ∀ method ∈ types.methods, method.2.2.symbol ≠ entrySymbol)
    (declared : Declared types signatures call) : call.symbol ≠ entrySymbol := by
  cases declared with
  | function name signature found =>
      have origin := SignatureTable.origin_of_collect collected found
      have symbol : (Preamble.libraryDeclaration types signature).symbol = name := origin.symbol
      rw [symbol]
      cases origin with
      | function declared mem _ named =>
          cases named
          exact apart.entry declared mem
      | library returns params mem =>
          have apart : ∀ function ∈ Signature.library, function.1 ≠ entrySymbol := by decide
          exact apart _ mem
  | method type name method call found declares =>
      rw [(Preamble.symbol_methodDeclaration declares).1]
      exact others _ (Registry.mem_methods.mpr found)
  | argv => exact (by decide : argvSymbol ≠ entrySymbol)

end

section

variable {options : CodegenOptions} {generated : Module} (apart : source.Apart types)
  (collected : SignatureTable.collect source types options.entry = .ok signatures)
  (renders : List.Forall₂ (Renders types signatures options.entry) source.functions
    generated.functions)
include apart renders

theorem nodup_interface
    (derived : preamble types signatures options (generated.functions.map (·.name)) =
      .ok generated.preamble) : (generated.interface.map (·.symbol)).Nodup := by
  obtain ⟨declared, undefined⟩ := declared_preamble derived
  have free : entrySymbol ∉ source.functions.map (·.name) := by
    intro mem
    obtain ⟨function, mem, eq⟩ := List.mem_map.mp mem
    exact apart.entry function mem eq
  have defined : (generated.functions.map (·.name)).Nodup := by
    rw [names_of_renders renders]
    exact (functionSymbol_nodup apart.distinct).mpr fun _ => .inr free
  have names : (generated.functions.map Function.declaration).map (·.symbol) =
      generated.functions.map (·.name) := List.map_map
  rw [Module.interface, List.map_append, names]
  exact List.nodup_append'.mpr
    ⟨defined, declared, fun symbol mem mem' => undefined symbol mem' mem⟩

variable (declares : Preamble.methodDeclarations types = .ok methods)
  (declarations : generated.preamble.declarations =
    (Preamble.candidates types signatures methods).filter
      (·.symbol ∉ generated.functions.map (·.name)))
include collected declares declarations

/-- What is called as it is declared agrees with its declaration unless the entry takes its
    place. -/
theorem agrees_iff_of_declared (declared : Declared types signatures call) :
    call ∈ generated.interface ↔
      (call.symbol = entrySymbol → options.entry ∉ source.functions.map (·.name)) := by
  rw [Module.interface, List.mem_append, declarations, List.mem_filter, decide_eq_true_iff]
  rcases defined_or_candidate apart collected renders declares declared with
    ⟨defined, ne⟩ | ⟨candidate, other⟩
  · exact iff_of_true (.inl defined) fun eq => absurd eq ne
  · have undefined : call ∉ generated.functions.map Function.declaration := fun defined =>
      Preamble.returns_candidates declares candidate (returns_of_defined renders defined other)
    have unnamed : ¬ ∃ function ∈ source.functions,
        function.name ≠ options.entry ∧ function.name = call.symbol := by
      rintro ⟨function, mem, ne, eq⟩
      exact other function mem ne eq
    rw [mem_names_of_renders renders]
    tauto

/-- What tears down values that are passed by value is not called as it is declared. -/
theorem teardown_disagrees (callable : types.Callable) {type : TypeId} {method : MethodEntry}
    (found : types.method type teardown = some method) (byValue : types.isByValue type) :
    ⟨method.symbol, .void, [.ptr ⟨types.ir type⟩]⟩ ∉ generated.interface := by
  rw [Module.interface, List.mem_append, declarations, List.mem_filter]
  rintro (defined | ⟨candidate, _⟩)
  · have returns : IrType.void = .i32 := returns_of_defined renders defined fun function mem _ =>
      apart.methods function mem _ _ _ found
    exact absurd returns (by decide)
  · exact Preamble.teardown_notMem_candidates callable collected declares found byValue candidate

end

/-- In a module with a derived preamble nothing is defined or declared twice, and a call agrees with
    what is defined or declared for it if and only if it tears down no value of a type that is
    passed by value and is no method with the symbol of the entry, where there is one. -/
theorem generate_calls_agree_iff {options : CodegenOptions} {generated : Module}
    (callable : types.Callable) (apart : source.Apart types) (derives : options.preamble = none)
    (accepted : (run (generate source types options)).1 = .ok generated) :
    (generated.interface.map (·.symbol)).Nodup ∧
      ∀ function ∈ generated.functions, ∀ i ∈ function.instrs, ∀ call ∈ i.called?,
        (call ∈ generated.interface ↔ ¬ types.TearsDownByValue call.symbol ∧
          (call.symbol = entrySymbol → options.entry ∉ source.functions.map (·.name))) := by
  obtain ⟨signatures, after, _, collected, ran, derived, _⟩ := generate_eq_ok.mp accepted
  have renders := (functions_yields options.entry source.functions).ok ran
  refine ⟨nodup_interface apart renders derived, ?_⟩
  rw [Codegen.preamble, derives] at derived
  obtain ⟨methods, declares, declarations⟩ := Preamble.derive_eq_ok derived
  have candidates := Preamble.nodup_candidates callable collected declares
  rw [Preamble.firstDeclarations_eq_filter candidates] at declarations
  intro function mem i there call called
  obtain ⟨_, _, rendered⟩ := exists_renders renders function mem
  rcases Calls.declared callable (rendered.calls there called) with
    declared | ⟨type, method, found, byValue, rfl⟩
  · have keeps := not_tearsDownByValue apart collected callable declared
    rw [agrees_iff_of_declared apart collected renders declares declarations declared]
    exact (and_iff_right keeps).symm
  · have disagrees := teardown_disagrees apart collected renders declares declarations callable
      found byValue
    exact iff_of_false disagrees fun agrees => agrees.1 ⟨type, method, found, byValue, rfl⟩

/-- The builtin types are torn down by address, and none of their methods has the symbol of the
    entry: a module that has no others calls everything as it is defined or declared. -/
theorem generate_calls_agree_builtin {options : CodegenOptions} {generated : Module}
    (apart : source.Apart .builtin) (derives : options.preamble = none)
    (accepted : (run (generate source .builtin options)).1 = .ok generated) :
    ∀ function ∈ generated.functions, ∀ i ∈ function.instrs, ∀ call ∈ i.called?,
      call ∈ generated.interface := by
  intro function mem i there call called
  obtain ⟨signatures, after, _, collected, ran, _⟩ := generate_eq_ok.mp accepted
  have renders := (functions_yields options.entry source.functions).ok ran
  obtain ⟨_, _, rendered⟩ := exists_renders renders function mem
  have agrees := (generate_calls_agree_iff Registry.callable_builtin apart derives accepted).2
    function mem i there call called
  have keeps : ∀ symbol, ¬ Registry.builtin.TearsDownByValue symbol := by
    rintro symbol ⟨type, method, found, byValue, _⟩
    have byAddress : ∀ method ∈ Registry.builtin.methods, method.2.1 = teardown →
        ¬ Registry.builtin.isByValue method.1 := by decide +kernel
    exact byAddress _ (Registry.mem_methods.mpr found) rfl byValue
  have others : ∀ method ∈ Registry.builtin.methods, method.2.2.symbol ≠ entrySymbol := by
    decide +kernel
  rcases Calls.declared Registry.callable_builtin (rendered.calls there called) with
    declared | ⟨type, method, found, byValue, rfl⟩
  · have other := symbol_ne_entry apart collected others declared
    exact agrees.mpr ⟨keeps call.symbol, fun eq => absurd eq other⟩
  · exact absurd ⟨type, method, found, byValue, rfl⟩ (keeps method.symbol)

/-- The builtin types and one that is passed by value and torn down. -/
def handles : Registry :=
  .define .builtin ({ name := "handle", ir := "i64" : TypeDescriptor }.withMethod teardown "void")

/-- A function that throws away a copy of its argument. -/
def discarding : Tree.Module where
  functions :=
    [{ name := "copy", params := [⟨"h", "handle"⟩], returns := "handle"
       body := [.ret (some (.name "h"))] },
     { name := "discard", params := [⟨"h", "handle"⟩]
       body := [.effect (.call "discard" [.call "copy" [.name "h"]])] }]

example : (run (generate discarding handles {})).1.toOption.map (fun generated =>
    (generated.functions.flatMap (·.instrs.filterMap Instr.called?)).filter
      (· ∉ generated.interface)) =
    some [⟨"handle.__del__", .void, [⟨"i64*"⟩]⟩] := by decide +kernel

end Codegen

end LlvmBackend
