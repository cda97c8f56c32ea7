import LlvmBackend.Proofs.Interface
import LlvmBackend.Proofs.Linking.Stmt
import LlvmBackend.Proofs.Typing

/-! # References

What a generated module refers to is there once: what it calls is one of its functions or declared,
and its constants stand in the pool. Main statement: `Codegen.generate_resolves`.
-/

namespace LlvmBackend

open Ir Lowering

/-! ## Constants -/

/-- The operands of all blocks. -/
def Ir.Function.operands (function : Function) : List Operand :=
  function.blocks.flatMap fun block =>
    block.instrs.flatMap Instr.operands ++ block.terminator.toList.flatMap Terminator.operands

/-- A function names known constants only. -/
def Ir.Function.Linked (known : String → Prop) (function : Function) : Prop :=
  ∀ operand ∈ function.operands, operand.Linked known

namespace Lowering

variable {types : Registry} {signatures : SignatureTable} {known : String → Prop}

theorem links_leaveAtEnd {given : Prop} {state : FunctionState} {value : Option TypedOperand}
    (linked : (Terminator.ret value).Linked known) :
    Links types known given (leaveAtEnd value) state fun _ => True := by
  refine links_isTerminated.andThen fun ended _ => ?_
  cases ended with
  | true => exact .done fun _ => trivial
  | false => exact links_terminate _ fun _ => linked

theorem links_body {state : FunctionState} (outcome : Outcome) (body : List Stmt)
    {value : Option TypedOperand} (linked : (Terminator.ret value).Linked known) :
    Links types known True
      (suite ⟨types, signatures, outcome⟩ body >>= fun _ => leaveAtEnd value) state
      fun _ => True := by
  have first : Links types known True (suite ⟨types, signatures, outcome⟩ body) state fun _ => True :=
    links_suite body
  exact first.andThen fun _ _ => links_leaveAtEnd linked

/-- A function names what the state named that it is finished from. -/
theorem linked_finish {state : FunctionState} (linked : state.Linked types known) :
    state.builder.finish.Linked known := by
  intro operand mem
  obtain ⟨block, there, mem⟩ := List.mem_flatMap.mp mem
  have instrs : ∀ old ∈ state.builder.blocks, ∀ i ∈ state.builder.slots ++ old.instrs,
      i.Linked known := fun old there =>
    List.forall_mem_append.mpr ⟨linked.slots, linked.instrs old there⟩
  rcases List.mem_append.mp mem with code | ending
  · obtain ⟨i, inside, used⟩ := List.mem_flatMap.mp code
    rcases mem_modify there with old | ⟨old, first, rfl⟩
    · exact linked.instrs block old i inside operand used
    · exact instrs old (List.mem_of_getElem? first) i inside operand used
  · obtain ⟨terminator, ends, used⟩ := List.mem_flatMap.mp ending
    have ends := Option.mem_toList.mp ends
    rcases mem_modify there with old | ⟨old, first, rfl⟩
    · exact linked.ends block old terminator ends operand used
    · exact linked.ends old (List.mem_of_getElem? first) terminator ends operand used

theorem linked_addParams {function : String} {params : List Tree.Param} {opening : Opening}
    (entered : params.foldlM (Opening.addParam types function) {} = .ok opening) :
    ∀ name value, opening.scopes.lookup name = some value → value.Linked known := by
  refine addParams_induct (motive := fun _ opening =>
    ∀ name value, opening.scopes.lookup name = some value → value.Linked known)
    entered (by simp) ?_
  intro opening param rest type _ _ ih name value found
  rw [withParam, Scopes.lookup_define] at found
  split at found
  · cases found
    show Storage.Linked known (if types.isByValue type then _ else _)
    split <;> trivial
  · exact ih name value found

theorem linked_opened {source : Tree.Function} {opening : Opening} {returns : TypeId}
    {progress : Progress}
    (entered : source.params.foldlM (Opening.addParam types source.name) {} = .ok opening)
    (regular : progress.pool.Regular types) :
    (opened source (opening.addResult types returns) progress).Linked types known where
  instrs := by simp [opened]
  ends := by simp [opened]
  slots := by simp [opened]
  names := by
    intro name value found
    simp only [opened, scopes_addResult, Scopes.lookup_push] at found
    exact linked_addParams entered name value found
  pool := regular

theorem linked_entryOpened {arguments : TypeId} {progress : Progress}
    (regular : progress.pool.Regular types) :
    (entryOpened types arguments progress).Linked types known where
  instrs := by simp [entryOpened, Start.prologue]
  ends := by simp [entryOpened]
  slots := by simp [entryOpened]
  names := by
    intro name value found
    simp only [entryOpened, Start.ofEntry, Scopes.lookup_push, Scopes.lookup_define,
      Scopes.lookup_empty] at found
    split at found
    · cases found
      trivial
    · split at found
      · cases found
        trivial
      · cases found
  pool := regular

/-- A function that can be called names constants of the pool that it leaves behind. -/
theorem lowerFunction_linked {source : Tree.Function} {before after : Progress}
    {function : Function}
    (result : lowerFunction types signatures source before = .ok function after)
    (regular : before.pool.Regular types)
    (all : ∀ global ∈ after.pool.globals, known global.symbol) : function.Linked known := by
  cases resolved : types.resolve source.returns with
  | error error =>
      simp only [lowerFunction, resolved, Bind.bind, Except.bind] at result
      cases result
  | ok returns =>
      cases entered : source.params.foldlM (Opening.addParam types source.name) {} with
      | error error =>
          simp only [lowerFunction, resolved, entered, Bind.bind, Except.bind] at result
          cases result
      | ok opening =>
          simp only [lowerFunction, resolved, entered, Bind.bind, Except.bind, pure, Except.pure]
            at result
          obtain ⟨later, ran, rfl, rfl⟩ := build_ok result
          obtain ⟨_, links⟩ := links_body (.result returns) source.body (by simp) () later ran
          exact linked_finish (links all (linked_opened entered regular) trivial).1

/-- The entry names constants of the pool that it leaves behind. -/
theorem lowerEntry_linked {source : Tree.Function} {before after : Progress}
    {function : Function}
    (result : lowerEntry types signatures source before = .ok function after)
    (regular : before.pool.Regular types)
    (all : ∀ global ∈ after.pool.globals, known global.symbol) : function.Linked known := by
  cases resolved : types.resolve argumentsType.name with
  | error error =>
      simp only [lowerEntry, resolved] at result
      cases result
  | ok arguments =>
      simp only [lowerEntry, resolved] at result
      obtain ⟨later, ran, rfl, rfl⟩ := build_ok result
      have ran : (suite ⟨types, signatures, .status⟩ source.body >>= fun _ =>
          leaveAtEnd (some success)) (entryOpened types arguments before) = .ok () later := ran
      obtain ⟨_, links⟩ := links_body .status source.body (by simp [success]) () later ran
      exact linked_finish (links all (linked_entryOpened regular) trivial).1

end Lowering

namespace Pool

variable {types : Registry} {pool later : Pool}

theorem Later.globals (h : Later types pool later) : pool.globals ⊆ later.globals := by
  induction h with
  | refl => exact List.Subset.refl _
  | bool value _ ih => exact List.Subset.trans ih (added_bool types _ value).kept
  | int value _ ih => exact List.Subset.trans ih (added_int types _ value).kept
  | float value _ ih => exact List.Subset.trans ih (added_float types _ value).kept
  | string value _ ih => exact List.Subset.trans ih (added_string types _ value).kept

/-- The bytes of a text stand where the text does. -/
def Closed (globals : List Global) : Prop :=
  ∀ global ∈ globals, ∀ length data, global.init = .header length data →
    data ∈ globals.map Global.symbol

theorem Closed.append {globals more : List Global} (closed : Closed globals)
    (closed' : Closed more) : Closed (globals ++ more) := by
  intro global mem length data eq
  rw [List.map_append, List.mem_append]
  exact (List.mem_append.mp mem).imp (closed global · length data eq)
    (closed' global · length data eq)

theorem Later.closed (h : Later types pool later) (before : Closed pool.globals) :
    Closed later.globals := by
  induction h with
  | refl => exact before
  | @bool later value _ ih =>
      unfold Pool.bool
      split
      · exact ih
      · exact ih.append (by simp [Closed, boolGlobal])
  | int value _ ih => exact ih.append (by simp [Closed, intGlobal])
  | float value _ ih => exact ih.append (by simp [Closed, floatGlobal])
  | string value _ ih => exact ih.append (by simp [Closed, bytesGlobal, stringGlobal])

end Pool

namespace Codegen

variable {types : Registry} {signatures : SignatureTable} {entry : String} {known : String → Prop}

theorem function_linked {source : Tree.Function} {before after : Progress} {lowered : Function}
    (ran : function types signatures entry source before = .ok lowered after)
    (regular : before.pool.Regular types)
    (all : ∀ global ∈ after.pool.globals, known global.symbol) : lowered.Linked known := by
  unfold function at ran
  split at ran
  · obtain ⟨found, between, lowering, rest⟩ := exists_of_bind ran
    cases rest
    exact lowerEntry_linked lowering regular all
  · obtain ⟨found, between, lowering, rest⟩ := exists_of_bind ran
    cases rest
    exact lowerFunction_linked lowering regular all

theorem functions_linked {sources : List Tree.Function} {before after : Progress}
    {lowered : List Function}
    (ran : functions types signatures entry sources before = .ok lowered after)
    (regular : before.pool.Regular types)
    (all : ∀ global ∈ after.pool.globals, known global.symbol) :
    ∀ function ∈ lowered, function.Linked known := by
  induction sources generalizing before lowered with
  | nil =>
      cases ran
      simp
  | cons source rest ih =>
      obtain ⟨first, between, here, others⟩ := exists_of_bind ran
      obtain ⟨last, _, there, ending⟩ := exists_of_bind others
      cases ending
      have kept := (functions_later there).globals
      have first := function_linked here regular fun global mem => all global (kept mem)
      exact List.forall_mem_cons.mpr ⟨first, ih there ((function_later here).regular regular)⟩

end Codegen

/-! ## Calls -/

namespace Preamble

variable {types : Registry} {signatures : SignatureTable} {methods : List Declaration}

/-- What can be declared is there already, or it is declared. -/
theorem mem_or_declared {seen : List String} {declarations : List Declaration} {symbol : String}
    (mem : symbol ∈ declarations.map (·.symbol)) :
    symbol ∈ seen ∨ symbol ∈ (firstDeclarations seen declarations).map (·.symbol) := by
  induction declarations generalizing seen with
  | nil => cases mem
  | cons first rest ih =>
      simp only [firstDeclarations]
      rcases List.mem_cons.mp mem with rfl | mem
      · split
        · next there => exact .inl there
        · exact .inr List.mem_cons_self
      · split
        · exact ih mem
        · rcases @ih (first.symbol :: seen) mem with there | declared
          · rcases List.mem_cons.mp there with rfl | there
            · exact .inr List.mem_cons_self
            · exact .inl there
          · exact .inr (List.mem_cons_of_mem _ declared)

/-- All methods can be declared. -/
theorem method_mem_candidates (declared : methodDeclarations types = .ok methods) {type : TypeId}
    {name : String} {entry : MethodEntry} (found : types.method type name = some entry) :
    entry.symbol ∈ (candidates types signatures methods).map (·.symbol) := by
  rw [candidates, List.map_append, List.map_append, symbols_methodDeclarations declared]
  exact List.mem_append_left _ (List.mem_append_left _
    (List.mem_map_of_mem (Registry.mem_methods.mpr found)))

end Preamble

/-- What a module calls is one of its functions or declared, the constants that its code and its
    constants name are among its constants, and nothing is there twice: no constant, no declaration,
    and no declaration beside a function of its symbol. -/
structure Ir.Module.Resolved (module : Module) : Prop where
  callees : ∀ function ∈ module.functions, ∀ i ∈ function.instrs, ∀ symbol ∈ i.callee?,
    symbol ∈ module.functions.map (·.name) ∨ symbol ∈ module.preamble.declared
  constants : ∀ function ∈ module.functions, ∀ symbol, .symbol symbol ∈ function.operands →
    (module.globals.map (·.symbol)).count symbol = 1
  data : ∀ global ∈ module.globals, ∀ length data, global.init = .header length data →
    (module.globals.map (·.symbol)).count data = 1
  declarations : module.preamble.declared.Nodup
  apart : ∀ symbol ∈ module.preamble.declared, symbol ∉ module.functions.map (·.name)

namespace Codegen

variable {types : Registry} {signatures : SignatureTable} {source : Tree.Module} {entry : String}
  {lowered : List Function} {methods : List Declaration}

section

variable (collected : SignatureTable.collect source types entry = .ok signatures)
  (renders : List.Forall₂ (Renders types signatures entry) source.functions lowered)
  (declared : Preamble.methodDeclarations types = .ok methods)
include collected renders declared

/-- What a signature stands for is a function of the module, or it can be declared. -/
theorem signature_defined {name : String} {signature : Signature}
    (found : signatures.get? name = some signature) : signature.symbol ∈ lowered.map (·.name) ∨
      signature.symbol ∈ (Preamble.candidates types signatures methods).map (·.symbol) := by
  have origin := SignatureTable.origin_of_collect collected found
  rw [mem_names_of_renders renders, origin.symbol]
  cases origin with
  | function declared mem other named => exact .inl (.inr ⟨declared, mem, other, named⟩)
  | library _ _ _ names builtin =>
      refine .inr (List.mem_map.mpr ⟨Preamble.libraryDeclaration types signature, ?_, names.symbol⟩)
      exact (Preamble.mem_candidates declared).mpr (.inr (.inl ⟨name, signature, found, builtin, rfl⟩))

theorem bound_defined {callee : Callee} {given : List TypeId} {target : Target}
    (bound : callee.bind types signatures given = .ok target) :
    target.symbol ∈ lowered.map (·.name) ∨
      target.symbol ∈ (Preamble.candidates types signatures methods).map (·.symbol) := by
  have function : ∀ {name}, Callee.bindFunction types signatures name given = .ok target →
      target.symbol ∈ lowered.map (·.name) ∨
        target.symbol ∈ (Preamble.candidates types signatures methods).map (·.symbol) := by
    intro name bound
    obtain ⟨signature, found, _, rfl⟩ := Callee.bindFunction_eq_ok bound
    exact signature_defined collected renders declared found
  have method : ∀ {type name}, Callee.bindMethod types type name = .ok target →
      target.symbol ∈ (Preamble.candidates types signatures methods).map (·.symbol) := by
    intro type name bound
    obtain ⟨entry, found, _, eq⟩ := Callee.bindMethod_eq_ok bound
    exact eq ▸ Preamble.method_mem_candidates declared found
  cases callee with
  | function name => exact function bound
  | method type name => exact .inr (method bound)
  | protocol name shared =>
      match given, bound with
      | [receiver], bound =>
          simp only [Callee.bind] at bound
          split at bound
          · exact function bound
          · exact .inr (method bound)

/-- What is called is a function of the module, or it can be declared. -/
theorem calls_defined {call : Declaration} (calls : Calls types signatures call) :
    call.symbol ∈ lowered.map (·.name) ∨
      call.symbol ∈ (Preamble.candidates types signatures methods).map (·.symbol) := by
  cases calls with
  | bound callee given target _ bound => exact bound_defined collected renders declared bound
  | tearsDown type entry found | goesOn type _ entry found =>
      exact .inr (Preamble.method_mem_candidates declared found)
  | decodes =>
      refine .inr (List.mem_map.mpr ⟨Preamble.argvDeclaration types, ?_, rfl⟩)
      exact (Preamble.mem_candidates declared).mpr (.inr (.inr rfl))

end

/-- In a module with a derived preamble everything that is named is there once. -/
theorem generate_resolves {options : CodegenOptions} {generated : Module}
    (derives : options.preamble = none)
    (accepted : (run (generate source types options)).1 = .ok generated) : generated.Resolved := by
  obtain ⟨signatures, after, _, collected, ran, derived, globals⟩ := generate_eq_ok.mp accepted
  have renders := (functions_yields options.entry source.functions).ok ran
  have later := functions_later ran
  have regular : after.pool.Regular types := later.regular (Pool.regular_empty types)
  have once : ∀ symbol ∈ generated.globals.map (·.symbol),
      (generated.globals.map (·.symbol)).count symbol = 1 := by
    rw [globals]
    exact fun symbol mem => List.count_eq_one_of_mem regular.nodup mem
  obtain ⟨declares, apart⟩ := declared_preamble derived
  refine ⟨fun function mem i there symbol callee => ?_, fun function mem symbol named => ?_,
    fun global mem length data eq => ?_, declares, apart⟩
  · rw [Codegen.preamble, derives] at derived
    obtain ⟨methods, declared, declarations⟩ := Preamble.derive_eq_ok derived
    obtain ⟨_, _, rendered⟩ := exists_renders renders function mem
    obtain ⟨call, called, rfl⟩ : ∃ call ∈ i.called?, call.symbol = symbol := by
      cases i <;> cases callee
      exact ⟨_, rfl, rfl⟩
    rw [Preamble.declared, declarations]
    rcases calls_defined collected renders declared (rendered.calls there called) with
      defined | candidate
    · exact .inl defined
    · exact Preamble.mem_or_declared candidate
  · have all : ∀ global ∈ after.pool.globals, global.symbol ∈ generated.globals.map (·.symbol) :=
      fun global mem => List.mem_map_of_mem (globals ▸ mem)
    exact once symbol (functions_linked ran (Pool.regular_empty types) all function mem _ named)
  · have closed : Pool.Closed generated.globals := globals ▸ later.closed (by simp [Pool.Closed])
    exact once data (closed global mem length data eq)

/-- A function takes the place of one of the library and calls another. -/
def shadowing : Tree.Module where
  functions :=
    [{ name := "print", params := [⟨"line", "str"⟩], returns := "int"
       body :=
        [.forLoop "i" (.call "range" [.int 0, .int 3, .int 1])
          [.assign "line" (.binary .add (.name "line") (.call "str" [.name "i"]))],
         .ret (some (.ternary (.and (.name "line") (.bool true)) (.int 1) (.int 0)))] },
     { name := "__main__", body := [.effect (.call "print" [.string "!"])] }]

theorem shadowing_resolves : ({} : CodegenOptions).preamble = none ∧
    ∃ generated, (run (generate shadowing .builtin {})).1 = .ok generated ∧
      generated.Resolved := by
  have derives : ({} : CodegenOptions).preamble = none := rfl
  have accepted : (run (generate shadowing .builtin {})).1.toBool = true := by decide +kernel
  cases result : (run (generate shadowing .builtin {})).1 with
  | error error => simp [result, Except.toBool] at accepted
  | ok generated => exact ⟨derives, generated, rfl, generate_resolves derives result⟩

end Codegen

end LlvmBackend
