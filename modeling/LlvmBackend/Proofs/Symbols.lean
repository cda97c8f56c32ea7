import LlvmBackend.Proofs.Drafts

/-! # Symbols of a module

The functions, the constants and the declarations of a module share one space of symbols. Two of one
kind never have the same symbol, but nothing keeps the symbols of constants away from those that the
source and the registry choose. Main statement: `Codegen.generate_symbols_nodup_iff`.
-/

namespace LlvmBackend

open Ir

/-! ## Declarations -/

namespace Preamble

theorem mem_firstDeclarations {seen : List String} {declarations : List Declaration}
    {declaration : Declaration} (mem : declaration ∈ firstDeclarations seen declarations) :
    declaration.symbol ∉ seen := by
  induction declarations generalizing seen with
  | nil => cases mem
  | cons first rest ih =>
      simp only [firstDeclarations] at mem
      split at mem
      · exact ih mem
      · next new =>
          rcases List.mem_cons.mp mem with rfl | mem
          · exact new
          · exact fun old => ih mem (List.mem_cons_of_mem _ old)

/-- Nothing is declared twice. -/
theorem nodup_firstDeclarations (seen : List String) (declarations : List Declaration) :
    ((firstDeclarations seen declarations).map (·.symbol)).Nodup := by
  induction declarations generalizing seen with
  | nil => exact .nil
  | cons first rest ih =>
      simp only [firstDeclarations]
      split
      · exact ih seen
      · refine List.nodup_cons.mpr ⟨fun mem => ?_, ih _⟩
        obtain ⟨later, there, eq⟩ := List.mem_map.mp mem
        exact mem_firstDeclarations there (eq ▸ List.mem_cons_self)

end Preamble

/-- What a preamble declares. -/
def Ir.Preamble.declarations : Preamble → List Declaration
  | .derived _ declarations => declarations
  | .verbatim _ => []

namespace Preamble

/-- All that can be declared besides the functions of a module. -/
def candidates (types : Registry) (signatures : SignatureTable) (methods : List Declaration) :
    List Declaration :=
  methods ++ (signatures.values.filter (·.builtin)).map (libraryDeclaration types) ++
    [argvDeclaration types]

theorem derive_eq_ok {types : Registry} {signatures : SignatureTable} {defined : List String}
    {preamble : Ir.Preamble}
    (derived : derive types signatures defined = .ok preamble) :
    ∃ methods, methodDeclarations types = .ok methods ∧
      preamble.declarations = firstDeclarations defined (candidates types signatures methods) := by
  unfold derive at derived
  cases declared : methodDeclarations types with
  | error error =>
      rw [declared] at derived
      cases derived
  | ok methods =>
      rw [declared] at derived
      cases derived
      exact ⟨methods, rfl, rfl⟩

end Preamble

/-- The symbols that a preamble declares. -/
def Ir.Preamble.declared (preamble : Preamble) : List String := preamble.declarations.map (·.symbol)

/-- The symbols of a module. -/
def Ir.Module.symbols (module : Module) : List String :=
  module.functions.map (·.name) ++ module.globals.map (·.symbol) ++ module.preamble.declared

/-- Where the symbols of constants differ and no declared symbol is defined by a function, what can
    clash is two functions, or a constant and something else. -/
theorem Ir.Module.symbols_nodup_iff {module : Module}
    (constants : (module.globals.map (·.symbol)).Nodup) (declared : module.preamble.declared.Nodup)
    (apart : ∀ symbol ∈ module.preamble.declared, symbol ∉ module.functions.map (·.name)) :
    module.symbols.Nodup ↔ (module.functions.map (·.name)).Nodup ∧
      ∀ global ∈ module.globals,
        global.symbol ∉ module.functions.map (·.name) ++ module.preamble.declared := by
  have disjoint : module.symbols.Nodup ↔ (module.functions.map (·.name)).Nodup ∧
      (module.functions.map (·.name)).Disjoint (module.globals.map (·.symbol)) ∧
      (module.globals.map (·.symbol)).Disjoint module.preamble.declared := by
    have declares : (module.functions.map (·.name)).Disjoint module.preamble.declared :=
      fun symbol mem mem' => apart symbol mem' mem
    simp only [symbols, List.nodup_append', List.disjoint_append_left, constants, declared, declares,
      true_and, and_assoc]
  rw [disjoint]
  refine and_congr_right fun _ => ⟨?_, fun new => ⟨?_, ?_⟩⟩
  · rintro ⟨functions, declarations⟩ global mem taken
    have mem := List.mem_map_of_mem (f := Global.symbol) mem
    exact (List.mem_append.mp taken).elim (functions · mem) (declarations mem)
  · intro symbol mem mem'
    obtain ⟨global, there, rfl⟩ := List.mem_map.mp mem'
    exact new global there (List.mem_append_left _ mem)
  · intro symbol mem mem'
    obtain ⟨global, there, rfl⟩ := List.mem_map.mp mem
    exact new global there (List.mem_append_right _ mem')

namespace Codegen

variable {types : Registry} {signatures : SignatureTable} {options : CodegenOptions}

/-- What a module defines is not declared, and nothing is declared twice. -/
theorem declared_preamble {defined : List String} {preamble : Preamble}
    (result : Codegen.preamble types signatures options defined = .ok preamble) :
    preamble.declared.Nodup ∧ ∀ symbol ∈ preamble.declared, symbol ∉ defined := by
  unfold Codegen.preamble at result
  split at result
  · cases result
    exact ⟨.nil, by simp [Preamble.declared, Preamble.declarations]⟩
  · obtain ⟨methods, _, declarations⟩ := Preamble.derive_eq_ok result
    rw [Preamble.declared, declarations]
    refine ⟨Preamble.nodup_firstDeclarations _ _, fun symbol mem => ?_⟩
    obtain ⟨declaration, there, rfl⟩ := List.mem_map.mp mem
    exact Preamble.mem_firstDeclarations there

/-! ## Functions -/

/-- The symbol of a function: the entry is what a process starts with. -/
def functionSymbol (entry name : String) : String :=
  if name = entry then Lowering.entrySymbol else name

theorem name_of_renders {entry : String} {source : Tree.Function} {function : Function}
    (renders : Renders types signatures entry source function) :
    function.name = functionSymbol entry source.name := by
  obtain ⟨start, starts, emitted⟩ := renders
  cases emitted with
  | intro slots site _ _ _ _ _ _ _ _ header =>
      have name := congrArg Prod.fst header
      cases starts with
      | entry named => exact name.trans (if_pos named).symm
      | function other => exact name.trans (if_neg other).symm

theorem names_of_renders {entry : String} {sources : List Tree.Function} {lowered : List Function}
    (renders : List.Forall₂ (Renders types signatures entry) sources lowered) :
    lowered.map (·.name) = (sources.map (·.name)).map (functionSymbol entry) := by
  induction renders with
  | nil => rfl
  | cons first _ ih => rw [List.map_cons, name_of_renders first, ih, List.map_cons, List.map_cons]

/-- The symbols of functions differ unless the symbol of the entry is the name of another one. -/
theorem functionSymbol_nodup {entry : String} {names : List String} (distinct : names.Nodup) :
    (names.map (functionSymbol entry)).Nodup ↔
      (entry ∈ names → entry = Lowering.entrySymbol ∨ Lowering.entrySymbol ∉ names) := by
  constructor
  · intro nodup mem
    refine or_iff_not_imp_right.mpr fun taken => ?_
    refine List.inj_on_of_nodup_map nodup mem (not_not.mp taken) ?_
    simp [functionSymbol]
  · intro apart
    refine distinct.map_on fun first mem second mem' eq => ?_
    unfold functionSymbol at eq
    split_ifs at eq with here there there
    · exact here.trans there.symm
    · rcases apart (here ▸ mem) with main | free
      · exact here.trans (main.trans eq)
      · exact absurd (eq ▸ mem') free
    · rcases apart (there ▸ mem') with main | free
      · exact eq.trans (main.symm.trans there.symm)
      · exact absurd (eq ▸ mem) free
    · exact eq

/-! ## Modules -/

/-- The symbols of a module with a derived preamble differ if and only if no function beside the
    entry has the symbol of the entry, and no constant has the symbol of a function or of a
    declaration. -/
theorem generate_symbols_nodup_iff {source : Tree.Module} {generated : Module}
    (distinct : (source.functions.map (·.name)).Nodup)
    (accepted : (run (generate source types options)).1 = .ok generated) :
    generated.symbols.Nodup ↔
      (options.entry ∈ source.functions.map (·.name) →
        options.entry = Lowering.entrySymbol ∨
          Lowering.entrySymbol ∉ source.functions.map (·.name)) ∧
      ∀ global ∈ generated.globals, global.symbol ∉
        generated.functions.map (·.name) ++ generated.preamble.declared := by
  obtain ⟨signatures, after, _, _, ran, derived, globals⟩ := generate_eq_ok.mp accepted
  have renders := (functions_yields options.entry source.functions).ok ran
  obtain ⟨declared, apart⟩ := declared_preamble derived
  have constants : (generated.globals.map (·.symbol)).Nodup := by
    rw [globals]
    exact ((functions_later ran).regular (Pool.regular_empty types)).nodup
  rw [Module.symbols_nodup_iff constants declared apart, names_of_renders renders,
    functionSymbol_nodup distinct]

end Codegen

end LlvmBackend
