import LlvmBackend.Proofs.Translation.Parts
import LlvmBackend.Proofs.Typing

/-! # Names in functions

The parameters, the registers and the blocks of a function share one space of names. Two of one kind
never have the same name, and neither have a numbered and a named register; but nothing keeps the
variables of the source away from the labels of blocks. Main statement:
`Codegen.generate_localNames_nodup_iff`.
-/

namespace LlvmBackend

open Ir

/-! ## Names as they are written -/

/-- The name of a register, as it is written behind a percent sign. -/
def Operand.registerName? : Operand → Option String
  | .temp n => some n.repr
  | .named name => some name
  | .symbol _ | .bool _ | .int _ => none

/-- The name of the register that an instruction defines. -/
def Instr.registerName? (i : Instr) : Option String := i.dest.bind Operand.registerName?

theorem Instr.registerName?_eq_some {i : Instr} {name : String} : i.registerName? = some name ↔
    (∃ n, i.number? = some n ∧ n.repr = name) ∨ i.localName? = some name := by
  unfold registerName? number? localName?
  cases i.dest with
  | none => simp
  | some register => cases register <;> simp [Operand.registerName?, Operand.temp?]

namespace Ir.Function

variable (function : Function)

/-- The names of the parameters and of all that instructions define. -/
def registers : List String :=
  function.params.map Param.name ++ function.instrs.filterMap Instr.registerName?

/-- The names of the blocks. -/
def labels : List String := function.labelsOf function.layout

/-- All names in a function. -/
def localNames : List String := function.registers ++ function.labels

end Ir.Function

def startsWithDigit (name : String) : Bool := name.toList.head?.any Char.isDigit

theorem startsWithDigit_repr (n : Nat) : startsWithDigit n.repr = true := by
  unfold startsWithDigit
  rw [Nat.toList_repr]
  cases digits : Nat.toDigits 10 n with
  | nil => exact absurd digits (Nat.toDigits_ne_nil)
  | cons first rest =>
      exact Nat.isDigit_of_mem_toDigits (by decide) (by decide) (digits ▸ List.mem_cons_self)

theorem Ir.Function.mem_registers {function : Function} {name : String}
    (mem : name ∈ function.registers) : (∃ n : Nat, n.repr = name) ∨
      name ∈ function.params.map Param.name ++ function.instrs.filterMap Instr.localName? := by
  rcases List.mem_append.mp mem with param | defined
  · exact .inr (List.mem_append_left _ param)
  · obtain ⟨i, mem, eq⟩ := List.mem_filterMap.mp defined
    refine (Instr.registerName?_eq_some.mp eq).imp (fun ⟨n, _, same⟩ => ⟨n, same⟩) fun eq => ?_
    exact List.mem_append_right _ (List.mem_filterMap.mpr ⟨i, mem, eq⟩)

/-- In a well-formed function registers have different names if its parameters do and no name is a
    number. -/
theorem Ir.Function.WellFormed.registers_nodup {function : Function}
    (wellFormed : function.WellFormed) (params : (function.params.map Param.name).Nodup)
    (named : ∀ name ∈ function.params.map Param.name ++ function.instrs.filterMap Instr.localName?,
      startsWithDigit name = false) : function.registers.Nodup := by
  have numbers : (function.instrs.filterMap Instr.number?).Nodup := by
    rw [wellFormed.temps]
    exact List.nodup_range' 1
  obtain ⟨locals, free⟩ := wellFormed.locals
  have apart : ∀ n : Nat, ∀ i ∈ function.instrs, i.localName? ≠ some n.repr := fun n i mem eq => by
    have digit := named _ (List.mem_append_right _ (List.mem_filterMap.mpr ⟨i, mem, eq⟩))
    rw [startsWithDigit_repr] at digit
    cases digit
  refine List.nodup_append'.mpr ⟨params, List.pairwise_filterMap.mpr ?_, ?_⟩
  · have both := (List.pairwise_filterMap.mp numbers).and (List.pairwise_filterMap.mp locals)
    refine both.imp_of_mem ?_
    rintro i j mem mem' ⟨numbers, locals⟩ name eq other eq' rfl
    rw [Instr.registerName?_eq_some] at eq eq'
    rcases eq with ⟨n, eq, rfl⟩ | eq <;> rcases eq' with ⟨m, eq', same⟩ | eq'
    · exact numbers n eq m eq' (Supply.repr_injective same.symm)
    · exact apart n j mem' eq'
    · exact apart m i mem (same ▸ eq)
    · exact locals name eq name eq' rfl
  · intro name param mem
    obtain ⟨i, mem, eq⟩ := List.mem_filterMap.mp mem
    rcases Instr.registerName?_eq_some.mp eq with ⟨n, _, rfl⟩ | eq
    · have digit := named _ (List.mem_append_left _ param)
      rw [startsWithDigit_repr] at digit
      cases digit
    · exact free name (List.mem_filterMap.mpr ⟨i, mem, eq⟩) param

/-! ## Labels -/

theorem toList_label (n : Nat) : (s!"L{n}").toList = 'L' :: n.repr.toList := by
  simp [toString, String.toList_append]

/-- The name of a variable with a number is not a label. -/
theorem Supply.numbered_ne_label (base : String) (n m : Nat) : numbered base n ≠ s!"L{m}" := by
  intro eq
  have point : '.' ∈ (numbered base n).toList := by
    simp [numbered, toString, String.toList_append]
  rw [eq, toList_label, List.mem_cons, Nat.toList_repr] at point
  rcases point with point | point
  · cases point
  · have digit := Nat.isDigit_of_mem_toDigits (by decide) (by decide) point
    cases digit

theorem startsWithDigit_numbered {base : String} (named : startsWithDigit base = false) (n : Nat) :
    startsWithDigit (Supply.numbered base n) = false := by
  unfold startsWithDigit at named ⊢
  simp only [Supply.numbered, toString, String.toList_append]
  cases letters : base.toList with
  | nil => rfl
  | cons first rest =>
      rw [letters] at named
      exact named

/-! ## Names of the source -/

/-- The names that a function of the source gives to values. -/
def Tree.Function.identifiers (source : Tree.Function) : List String :=
  source.params.map Tree.Param.name ++ suiteTargets source.body

/-- The names that functions have whatever the source says. -/
def fixedNames : List String := Lowering.resultName :: Lowering.entryNames

theorem fixedNames_apart : ∀ name ∈ fixedNames,
    startsWithDigit name = false ∧ name.toList.head? ≠ some 'L' := by decide

theorem Start.names_of_starts {types : Registry} {entry : String} {source : Tree.Function}
    {start : Start} (starts : Starts types entry source start) :
    ∀ name ∈ start.header.params.map Param.name ++ start.before.filterMap Instr.localName?,
      name ∈ source.params.map Tree.Param.name ∨ name ∈ fixedNames := by
  cases starts with
  | entry =>
      intro name mem
      refine .inr ?_
      have known : ["argc", "argv"] ++ ["args$", "a0.p", "name", "a1.p", "args"] ⊆ fixedNames := by
        decide
      exact known mem
  | function _ _ entered =>
      intro name mem
      have params := Lowering.params_addParams entered
      simp only [ofOpening, List.filterMap_nil, List.append_nil, Lowering.Opening.addResult] at mem
      split at mem
      · exact .inl (params ▸ mem)
      · rw [List.map_append, params] at mem
        refine (List.mem_append.mp mem).imp_right fun last => ?_
        rw [List.mem_singleton.mp last]
        exact List.mem_cons_self

/-- Slots get free names for the names of the source. -/
theorem Translation.Lowers.slot_names {env : Surroundings} {work : Work} {names names' : Names}
    {ended : Bool} {code : Code} (lowers : Lowers env work names names' ended code) {name : String}
    {type : IrType} (mem : .slot name type ∈ code.parts) :
    ∃ (names : Names) (target : String), target ∈ work.targets ∧ name = names.freeName target := by
  have admits : AdmitsWork env fun part => ∀ name type, part = .slot name type →
      ∃ (names : Names) (target : String), target ∈ work.targets ∧ name = names.freeName target :=
    ⟨⟨by simp, by simp, by simp, by simp⟩, by simp, by simp, by simp⟩
  refine lowers.all admits ?_ _ mem name type rfl
  rintro names target mem _ _ _ ⟨⟩
  exact ⟨names, target, mem, rfl⟩

namespace Finished

variable {types : Registry} {signatures : SignatureTable} {entry : String} {source : Tree.Function}
  {start : Start} {function : Function} {slots : List Instr} {names : Names} {ended : Bool}
  {code : Code} {site : Site}

theorem exists_label (finished : Finished start function slots code site) {name : String}
    (mem : name ∈ function.labels) : ∃ n : Nat, name = s!"L{n}" := by
  obtain ⟨id, placed, eq⟩ := List.mem_filterMap.mp mem
  rw [finished.block] at eq
  rw [finished.layout] at placed
  rcases Nat.eq_zero_or_pos id with rfl | pos
  · rw [finished.valid.entryLabel] at eq
    cases eq
  · rw [finished.valid.labels id pos (finished.valid.placed_lt id placed)] at eq
    exact ⟨id, (Option.some.inj eq).symm⟩

/-- Where the names of registers come from. -/
theorem exists_origin
    (finished : Finished start function slots (code.returning ended start.atEnd) site)
    (lowers : Translation.Lowers ⟨types, signatures, start.outcome⟩ (.suite source.body)
      start.names names ended code) (starts : Starts types entry source start) {name : String}
    (mem : name ∈ function.params.map Param.name ++ function.instrs.filterMap Instr.localName?) :
    name ∈ fixedNames ∨ name ∈ source.identifiers ∨
      ∃ base ∈ source.identifiers, ∃ n, name = Supply.numbered base n := by
  rw [finished.localNames_eq, finished.params] at mem
  have known : name ∈ start.header.params.map Param.name ++
      start.before.filterMap Instr.localName? ∨ name ∈ slots.filterMap Instr.localName? := by
    simp only [List.mem_append] at mem ⊢
    tauto
  rcases known with known | slotted
  · rcases Start.names_of_starts starts name known with param | fixed
    · exact .inr (.inl (List.mem_append_left _ param))
    · exact .inl fixed
  · obtain ⟨slot, there, eq⟩ := List.mem_filterMap.mp slotted
    rw [← finished.slots, finished.build.mem_slots, Code.slots_eq] at there
    obtain ⟨part, part_mem, eq'⟩ := List.mem_filterMap.mp (there.resolve_left List.not_mem_nil)
    cases part <;> cases eq'
    cases eq
    have inside := (Code.mem_parts_returning part_mem).resolve_right (by simp)
    obtain ⟨names, target, bound, rfl⟩ := lowers.slot_names inside
    have bound : target ∈ source.identifiers := List.mem_append_right _ bound
    rcases Supply.freeName_eq { used := names.used } target with eq | ⟨n, eq⟩
    · refine .inr (.inl ?_)
      rwa [Names.freeName, eq]
    · exact .inr (.inr ⟨target, bound, n, eq⟩)

end Finished

/-! ## Functions -/

/-- A label is not the name of a register, but for the names of the source. -/
theorem not_label_of_origin {identifiers : List String} {name : String}
    (origin : name ∈ fixedNames ∨ name ∈ identifiers ∨
      ∃ base ∈ identifiers, ∃ n, name = Supply.numbered base n)
    (other : name ∉ identifiers) (n : Nat) : name ≠ s!"L{n}" := by
  rintro rfl
  rcases origin with fixed | source | ⟨base, _, m, eq⟩
  · refine (fixedNames_apart _ fixed).2 ?_
    rw [toList_label]
    rfl
  · exact other source
  · exact Supply.numbered_ne_label base m n eq.symm

/-- The names in a function differ if and only if no variable or parameter is called like one of its
    blocks. -/
theorem Renders.localNames_nodup_iff {types : Registry} {signatures : SignatureTable}
    {entry : String} {source : Tree.Function} {function : Function}
    (renders : Renders types signatures entry source function) (distinct : source.Distinct)
    (named : ∀ name ∈ source.identifiers, startsWithDigit name = false) :
    function.localNames.Nodup ↔
      ∀ name ∈ source.identifiers, name ∈ function.registers → name ∉ function.labels := by
  obtain ⟨_, wellFormed⟩ := renders.wellFormed
  obtain ⟨start, starts, emitted⟩ := renders
  obtain ⟨_, _, _, _, _, lowers, finished⟩ := emitted.finished starts.plain
  have params : (function.params.map Param.name).Nodup := by
    rw [finished.params]
    cases starts with
    | entry => exact (by decide : ["argc", "argv"].Nodup)
    | function _ _ entered => exact @Lowering.nodup_opening _ _ distinct _ _ {} entered
  have letters : ∀ name ∈ function.params.map Param.name ++
      function.instrs.filterMap Instr.localName?, startsWithDigit name = false := by
    intro name mem
    rcases finished.exists_origin lowers starts mem with fixed | source | ⟨base, source, n, rfl⟩
    · exact (fixedNames_apart name fixed).1
    · exact named name source
    · exact startsWithDigit_numbered (named base source) n
  have registers := wellFormed.registers_nodup params letters
  constructor
  · intro nodup name _ register label
    exact (List.nodup_append'.mp nodup).2.2 register label
  · intro apart
    refine List.nodup_append'.mpr ⟨registers, wellFormed.labels, fun name register label => ?_⟩
    obtain ⟨n, rfl⟩ := finished.exists_label label
    refine apart _ ?_ register label
    by_contra other
    rcases Function.mem_registers register with ⟨m, eq⟩ | register
    · have digit := startsWithDigit_repr m
      rw [eq, startsWithDigit, toList_label] at digit
      cases digit
    · exact not_label_of_origin (finished.exists_origin lowers starts register) other n rfl

namespace Codegen

/-- In each function of a generated module the names of parameters, registers and blocks differ if
    and only if no parameter or variable of the source is called like one of the blocks. -/
theorem generate_localNames_nodup_iff {source : Tree.Module} {types : Registry}
    {options : CodegenOptions} {generated : Module}
    (distinct : ∀ function ∈ source.functions, function.Distinct)
    (named : ∀ function ∈ source.functions, ∀ name ∈ function.identifiers,
      startsWithDigit name = false)
    (accepted : (run (generate source types options)).1 = .ok generated) :
    List.Forall₂ (fun declared function => function.localNames.Nodup ↔
        ∀ name ∈ declared.identifiers, name ∈ function.registers → name ∉ function.labels)
      source.functions generated.functions := by
  obtain ⟨_, signatures, _, renders⟩ := run_ok (generate_yields source types options) accepted
  have proper : ∀ function ∈ source.functions, function.Distinct ∧
      ∀ name ∈ function.identifiers, startsWithDigit name = false :=
    fun function mem => ⟨distinct function mem, named function mem⟩
  refine ((List.forall₂_and_left _ _).mpr ⟨proper, renders⟩).imp ?_
  rintro _ _ ⟨⟨distinct, named⟩, renders⟩
  exact renders.localNames_nodup_iff distinct named

/-- A variable that is called like the first block of a loop. -/
def clashing : Tree.Module where
  functions :=
    [{ name := "f", params := [⟨"c", "bool"⟩]
       body := [.assign "L1" (.name "c"), .whileLoop (.name "c") []] }]

example : (run (generate clashing .builtin {})).1.toOption.map (·.functions.map (·.localNames)) =
    some [["c", "L1", "L1", "L2", "L3"]] := by decide +kernel

end Codegen

end LlvmBackend
