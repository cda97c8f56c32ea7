import LlvmBackend.Proofs.Signatures
import LlvmBackend.Proofs.Symbols
import LlvmBackend.Proofs.Translation.Parts

/-! # What can be declared

A derived preamble declares what calls can name beside the functions of a module: the methods of all
types, the functions of the library that no function hides, and what decodes the arguments of a
process. Where the symbols of these differ, all of them are declared but those that the module
defines itself.
-/

namespace LlvmBackend

open Ir Lowering

/-! ## Methods -/

namespace Registry

/-- All methods of all types. -/
def methods (types : Registry) : List (TypeId × String × MethodEntry) :=
  types.ids.flatMap fun id =>
    (types.describe id).methods.entries.map fun (name, entry) => (id, name, entry)

theorem mem_methods {types : Registry} {type : TypeId} {name : String} {entry : MethodEntry} :
    (type, name, entry) ∈ types.methods ↔ types.method type name = some entry := by
  simp only [methods, List.mem_flatMap, List.mem_map, Prod.mk.injEq, Prod.exists, method,
    NameMap.get?_eq_some]
  constructor
  · rintro ⟨_, _, _, _, mem, rfl, rfl, rfl⟩
    exact mem
  · intro mem
    refine ⟨type, List.mem_map.mpr ⟨type.index, List.mem_range.mpr ?_, rfl⟩, name, entry, mem, rfl,
      rfl, rfl⟩
    by_contra beyond
    have unknown : types.descriptors[type.index]? = none :=
      List.getElem?_eq_none (Nat.le_of_not_lt beyond)
    simp [describe, unknown, NameMap.empty] at mem

/-- The symbols of methods, of the library and of what decodes the arguments of a process differ,
    methods take what calls give them, and the arguments of a process are texts one after the
    other. -/
structure Callable (types : Registry) : Prop where
  symbols : (types.methods.map (·.2.2.symbol) ++ Signature.library.map Prod.fst ++
    [argvSymbol]).Nodup
  operators : ∀ type (op : BinaryOperator), ∀ entry ∈ types.method type op.method,
    entry.argument.isSome
  plain : ∀ type, ∀ name ∈ ["__bool__", "__str__", "__del__"], ∀ entry ∈ types.method type name,
    entry.argument = none
  teardowns : ∀ type, ∀ entry ∈ types.method type teardown, entry.returns = "void"
  arguments : ∀ type ∈ types.lookup argumentsType.name,
    types.ir type = types.ir Registry.string ++ "*"

/-- The builtin types are called as they say. -/
theorem callable_builtin : builtin.Callable where
  symbols := by decide +kernel
  operators := by
    intro type op entry found
    have asks : ∀ method ∈ builtin.methods, method.2.1 ∉ ["__bool__", "__str__", "__del__", next] →
        method.2.2.argument.isSome := by decide +kernel
    have other : op.method ∉ ["__bool__", "__str__", "__del__", next] := by cases op <;> decide
    exact asks _ (mem_methods.mpr found) other
  plain := by
    intro type name mem entry found
    have none : ∀ method ∈ builtin.methods, method.2.1 ∈ ["__bool__", "__str__", "__del__"] →
        method.2.2.argument = none := by decide +kernel
    exact none _ (mem_methods.mpr found) mem
  teardowns := by
    intro type entry found
    have void : ∀ method ∈ builtin.methods, method.2.1 = teardown →
        method.2.2.returns = "void" := by decide +kernel
    exact void _ (mem_methods.mpr found) rfl
  arguments := by decide +kernel

/-- What a symbol names tears down the values of a type that is passed by value. -/
def TearsDownByValue (types : Registry) (symbol : String) : Prop :=
  ∃ type entry, types.method type teardown = some entry ∧ types.isByValue type ∧
    entry.symbol = symbol

theorem resolve_void (types : Registry) : types.resolve "void" = .ok Registry.void := by
  obtain ⟨rest, eq⟩ := types.core
  match h : types.descriptors with
  | [] => simp [coreNames, h] at eq
  | first :: others =>
      obtain ⟨void, _⟩ : "void" = first.name ∧ _ := by simpa [coreNames, h] using eq
      simp [resolve, lookup, h, List.findIdx?_cons, ← void, Registry.void]

variable {types : Registry} (callable : types.Callable)
include callable

/-- A symbol names one method. -/
theorem Callable.unique {type type' : TypeId} {name name' : String} {entry entry' : MethodEntry}
    (found : types.method type name = some entry) (found' : types.method type' name' = some entry')
    (same : entry.symbol = entry'.symbol) : type = type' ∧ name = name' := by
  have symbols := (List.nodup_append'.mp (List.nodup_append'.mp callable.symbols).1).1
  have eq := List.inj_on_of_nodup_map symbols (mem_methods.mpr found) (mem_methods.mpr found') same
  exact ⟨congrArg (·.1) eq, congrArg (·.2.1) eq⟩

/-- The symbol of a method names nothing of the library. -/
theorem Callable.apart {type : TypeId} {name : String} {entry : MethodEntry}
    (found : types.method type name = some entry) :
    entry.symbol ∉ Signature.library.map Prod.fst ∧ entry.symbol ≠ argvSymbol := by
  obtain ⟨symbols, _, last⟩ := List.nodup_append'.mp callable.symbols
  have mem : entry.symbol ∈ types.methods.map (·.2.2.symbol) :=
    List.mem_map_of_mem (mem_methods.mpr found)
  refine ⟨fun library => (List.nodup_append'.mp symbols).2.2 mem library, fun eq => ?_⟩
  exact last (List.mem_append_left _ mem) (eq ▸ List.mem_singleton_self _)

end Registry

/-! ## Declarations of methods -/

namespace Preamble

variable {types : Registry} {type : TypeId} {name : String} {entry : MethodEntry}

theorem methodDeclaration_next {element : TypeId}
    (resolved : types.resolve entry.returns = .ok element) :
    methodDeclaration types type next entry =
      .ok (nextDeclaration types type entry.symbol element) := by
  simp [methodDeclaration, resolved, Bind.bind, Except.bind, pure, Except.pure]

theorem methodDeclaration_of_none {returns : TypeId} (other : name ≠ next)
    (argument : entry.argument = none) (resolved : types.resolve entry.returns = .ok returns) :
    methodDeclaration types type name entry =
      .ok ⟨entry.symbol, .void, types.callTypes [type] returns⟩ := by
  simp [methodDeclaration, argumentParam, resolved, other, argument, Registry.callTypes, Bind.bind,
    Except.bind, pure, Except.pure]

theorem methodDeclaration_of_some {returns argument : TypeId} {named : String} (other : name ≠ next)
    (asks : entry.argument = some named) (takes : types.resolve named = .ok argument)
    (resolved : types.resolve entry.returns = .ok returns) :
    methodDeclaration types type name entry =
      .ok ⟨entry.symbol, .void, types.callTypes [type, argument] returns⟩ := by
  simp [methodDeclaration, argumentParam, resolved, other, asks, takes, Registry.callTypes,
    Bind.bind, Except.bind, pure, Except.pure]

/-- What tears down values is declared to take what any method takes. -/
theorem methodDeclaration_teardown (callable : types.Callable)
    (found : types.method type teardown = some entry) :
    methodDeclaration types type teardown entry =
      .ok ⟨entry.symbol, .void, [types.paramIr type]⟩ := by
  have resolved : types.resolve entry.returns = .ok Registry.void := by
    rw [callable.teardowns type entry found, types.resolve_void]
  have argument := callable.plain type teardown (by decide) entry found
  rw [methodDeclaration_of_none (by decide) argument resolved]
  simp [Registry.callTypes, resultParam]

/-! ## All declarations -/

/-- Where all symbols differ, nothing is left out but what the module defines itself. -/
theorem firstDeclarations_eq_filter {seen : List String} {declarations : List Declaration}
    (symbols : (declarations.map (·.symbol)).Nodup) :
    firstDeclarations seen declarations = declarations.filter (·.symbol ∉ seen) := by
  induction declarations generalizing seen with
  | nil => rfl
  | cons first rest ih =>
      obtain ⟨new, others⟩ := List.nodup_cons.mp symbols
      rw [firstDeclarations, List.filter_cons]
      by_cases known : first.symbol ∈ seen
      · simp [known, ih others]
      · have same : ∀ declaration ∈ rest, decide (declaration.symbol ∉ first.symbol :: seen) =
            decide (declaration.symbol ∉ seen) := by
          intro declaration mem
          have ne : declaration.symbol ≠ first.symbol := fun eq =>
            new (List.mem_map.mpr ⟨declaration, mem, eq⟩)
          simp [ne]
        simp only [known, if_false, not_false_eq_true, decide_true, if_true]
        rw [ih others, List.filter_congr same]

variable {types : Registry} {signatures : SignatureTable} {source : Tree.Module}
  {entry : String} {methods : List Declaration}

theorem mem_methodDeclarations (declared : methodDeclarations types = .ok methods)
    {declaration : Declaration} : declaration ∈ methods ↔ ∃ type name method,
      types.method type name = some method ∧
        methodDeclaration types type name method = .ok declaration := by
  have declared : types.methods.mapM (fun method =>
      methodDeclaration types method.1 method.2.1 method.2.2) = .ok methods := declared
  rw [mem_of_mapM declared]
  simp only [Prod.exists, Registry.mem_methods]

theorem symbol_methodDeclaration {type : TypeId} {name : String} {method : MethodEntry}
    {declaration : Declaration}
    (declared : methodDeclaration types type name method = .ok declaration) :
    declaration.symbol = method.symbol ∧ declaration.returns ≠ .i32 := by
  unfold methodDeclaration at declared
  cases resolved : types.resolve method.returns with
  | error error =>
      rw [resolved] at declared
      cases declared
  | ok returns =>
      rw [resolved] at declared
      simp only [Bind.bind, Except.bind] at declared
      split at declared
      · cases declared
        exact ⟨rfl, by simp [nextDeclaration, IrType.i1, IrType.i32]⟩
      · split at declared
        · cases declared
        · cases declared
          exact ⟨rfl, by simp [IrType.void, IrType.i32]⟩

theorem mem_candidates (declared : methodDeclarations types = .ok methods)
    {declaration : Declaration} : declaration ∈ candidates types signatures methods ↔
      (∃ type name method, types.method type name = some method ∧
        methodDeclaration types type name method = .ok declaration) ∨
      (∃ name signature, signatures.get? name = some signature ∧ signature.builtin = true ∧
        libraryDeclaration types signature = declaration) ∨
      declaration = argvDeclaration types := by
  have library : declaration ∈ (signatures.values.filter (·.builtin)).map
      (libraryDeclaration types) ↔ ∃ name signature, signatures.get? name = some signature ∧
        signature.builtin = true ∧ libraryDeclaration types signature = declaration := by
    simp only [NameMap.values, List.mem_map, List.mem_filter, NameMap.get?_eq_some, Prod.exists,
      exists_eq_right]
    constructor
    · rintro ⟨signature, ⟨⟨name, mem⟩, builtin⟩, eq⟩
      exact ⟨name, signature, mem, builtin, eq⟩
    · rintro ⟨name, signature, mem, builtin, eq⟩
      exact ⟨signature, ⟨⟨name, mem⟩, builtin⟩, eq⟩
  rw [candidates, List.mem_append, List.mem_append, mem_methodDeclarations declared, library,
    List.mem_singleton, or_assoc]

/-- Nothing is declared that gives back a status. -/
theorem returns_candidates (declared : methodDeclarations types = .ok methods)
    {declaration : Declaration} (mem : declaration ∈ candidates types signatures methods) :
    declaration.returns ≠ .i32 := by
  rcases (mem_candidates declared).mp mem with ⟨_, _, _, _, declares⟩ | ⟨_, _, _, _, rfl⟩ | rfl
  · exact (symbol_methodDeclaration declares).2
  · simp [libraryDeclaration, IrType.void, IrType.i32]
  · simp [argvDeclaration, IrType.void, IrType.i32]

theorem symbols_methodDeclarations (declared : methodDeclarations types = .ok methods) :
    methods.map (·.symbol) = types.methods.map (·.2.2.symbol) := by
  have each : List.Forall₂ (fun method declaration =>
      methodDeclaration types method.1 method.2.1 method.2.2 = .ok declaration) types.methods
      methods := mapM_eq_ok.mp declared
  clear declared
  generalize types.methods = all at each
  induction each with
  | nil => rfl
  | cons first _ ih => rw [List.map_cons, List.map_cons, ih, (symbol_methodDeclaration first).1]

/-- Functions of the library are declared by their names. -/
theorem symbols_library (collected : SignatureTable.collect source types entry = .ok signatures) :
    ((signatures.values.filter (·.builtin)).map (libraryDeclaration types)).map (·.symbol) =
      (signatures.entries.filter (·.2.builtin)).map Prod.fst := by
  rw [NameMap.values, List.filter_map, List.map_map, List.map_map]
  refine List.map_congr_left fun found mem => ?_
  have found := NameMap.get?_eq_some.mpr (List.mem_filter.mp mem).1
  exact (SignatureTable.origin_of_collect collected found).symbol

/-- What can be declared has different symbols. -/
theorem nodup_candidates (callable : types.Callable)
    (collected : SignatureTable.collect source types entry = .ok signatures)
    (declared : methodDeclarations types = .ok methods) :
    ((candidates types signatures methods).map (·.symbol)).Nodup := by
  obtain ⟨symbols, _, last⟩ := List.nodup_append'.mp callable.symbols
  obtain ⟨distinct, _, apart⟩ := List.nodup_append'.mp symbols
  have known : (signatures.entries.filter (·.2.builtin)).map Prod.fst ⊆
      Signature.library.map Prod.fst := by
    intro name mem
    obtain ⟨found, kept, rfl⟩ := List.mem_map.mp mem
    obtain ⟨there, builtin⟩ := List.mem_filter.mp kept
    have origin := SignatureTable.origin_of_collect collected (NameMap.get?_eq_some.mpr there)
    exact (origin.mem_library builtin).1
  have names : ((signatures.entries.filter (·.2.builtin)).map Prod.fst).Nodup :=
    signatures.nodup_names.sublist (List.filter_sublist.map Prod.fst)
  rw [candidates, List.map_append, List.map_append, symbols_methodDeclarations declared,
    symbols_library collected]
  refine List.nodup_append'.mpr ⟨List.nodup_append'.mpr ⟨distinct, names, ?_⟩,
    List.nodup_singleton _, ?_⟩
  · exact fun symbol mem library => apart mem (known library)
  · intro symbol mem here
    have mem := (List.mem_append.mp mem).imp_right (known ·)
    exact last (List.mem_append.mpr mem) here

/-- What tears down values that are passed by value is not declared as it is called. -/
theorem teardown_notMem_candidates (callable : types.Callable)
    (collected : SignatureTable.collect source types entry = .ok signatures)
    (declared : methodDeclarations types = .ok methods) {type : TypeId} {method : MethodEntry}
    (found : types.method type teardown = some method) (byValue : types.isByValue type) :
    ⟨method.symbol, .void, [.ptr ⟨types.ir type⟩]⟩ ∉ candidates types signatures methods := by
  rw [mem_candidates declared]
  rintro (⟨type', name, method', found', declares⟩ | ⟨name, signature, there, builtin, eq⟩ | eq)
  · obtain ⟨rfl, rfl⟩ := callable.unique found found' (symbol_methodDeclaration declares).1
    cases found.symm.trans found'
    rw [methodDeclaration_teardown callable found, Registry.paramIr, if_pos byValue] at declares
    have eq : (⟨types.ir type⟩ : IrType) = .ptr ⟨types.ir type⟩ := by simpa using declares
    have length := congrArg (·.text.length) eq
    simp [IrType.ptr] at length
  · have origin := SignatureTable.origin_of_collect collected there
    have eq : name = method.symbol := origin.symbol.symm.trans (congrArg Declaration.symbol eq)
    exact (callable.apart found).1 (eq ▸ (origin.mem_library builtin).1)
  · exact (callable.apart found).2 (congrArg Declaration.symbol eq)

end Preamble

end LlvmBackend
