import LlvmBackend.Proofs.Finished
import LlvmBackend.Proofs.Ir.WellFormed

/-! # Structural validity

Emitted functions are well-formed, so the check of a generated module never finds a fault, and
generation never fails because of what it emits itself.
-/

namespace LlvmBackend

open Ir Lowering

namespace Start

/-- The names that a function starts with are taken and differ. -/
structure Reserved (start : Start) : Prop where
  params : start.header.params.map Param.name ⊆ start.names.used
  before : start.before.filterMap Instr.localName? ⊆ start.names.used
  new : New (start.header.params.map Param.name) (start.before.filterMap Instr.localName?)

theorem reserved_entry (types : Registry) (arguments : TypeId) :
    (ofEntry types arguments).Reserved where
  params := by
    show ["argc", "argv"] ⊆ (entryNames.foldl Supply.reserve {}).used
    decide
  before := by
    show ["args$", "a0.p", "name", "a1.p", "args"] ⊆ (entryNames.foldl Supply.reserve {}).used
    decide
  new := by
    show New ["argc", "argv"] ["args$", "a0.p", "name", "a1.p", "args"]
    exact ⟨by decide, by decide⟩

theorem addParams_reserve {types : Registry} {function : String} {params : List Tree.Param}
    {later : Opening}
    (eq : params.foldlM (Opening.addParam types function) {} = .ok later) :
    later.params.map Param.name ⊆ later.supply.used := by
  refine addParams_induct
    (motive := fun _ opening => opening.params.map Param.name ⊆ opening.supply.used) eq ?_ ?_
  · simp
  · intro opening param _ type _ _ taken
    simpa [withParam, Supply.reserve] using List.subset_cons_of_subset _ taken

theorem addResult_reserves {types : Registry} {opening : Opening} (returns : TypeId)
    (taken : opening.params.map Param.name ⊆ opening.supply.used) :
    (opening.addResult types returns).params.map Param.name ⊆
      (opening.addResult types returns).supply.used := by
  unfold Opening.addResult
  split
  · exact taken
  · simpa [Supply.reserve] using List.subset_cons_of_subset _ taken

theorem reserved_of_starts {types : Registry} {entry : String} {source : Tree.Function}
    {start : Start} (starts : Starts types entry source start) : start.Reserved := by
  cases starts with
  | entry => exact reserved_entry types _
  | function _ _ entered =>
      refine ⟨addResult_reserves _ (addParams_reserve entered), ?_, ?_⟩
      · simp [ofOpening]
      · simp [ofOpening, New]

end Start

namespace Finished

variable {start : Start} {function : Function} {slots : List Instr} {code : Code} {site : Site}
  (finished : Finished start function slots code site)
include finished

theorem instrs : function.instrs = site.instrs := by
  simp only [Function.instrs, Site.instrs, finished.layout, finished.block]

/-- The slots of variables have names that nothing else has. -/
theorem slots_new : (slots.filterMap Instr.localName?).Nodup ∧
    ∀ name ∈ slots.filterMap Instr.localName?, name ∉ start.names.used := by
  obtain ⟨new, eq, nodup, free⟩ := finished.built.grows.slots
  have names : slots.filterMap Instr.localName? = new.map Prod.fst := by
    rw [← finished.slots, eq, Start.site, List.nil_append, List.filterMap_map, ← List.filterMap_eq_map]
    rfl
  rw [names]
  exact ⟨nodup, fun name mem => (free name mem).1⟩

/-- Named registers are the slots of variables and what a function starts with. -/
theorem localNames_eq : function.instrs.filterMap Instr.localName? =
    slots.filterMap Instr.localName? ++ start.before.filterMap Instr.localName? := by
  rw [finished.instrs, finished.built.grows.locals, ← List.filterMap_append]
  simp [Site.instrs, Site.layout, Start.site]

theorem locals (reserved : start.Reserved) : New (start.header.params.map Param.name)
    (function.instrs.filterMap Instr.localName?) := by
  obtain ⟨nodup, free⟩ := finished.slots_new
  rw [finished.localNames_eq]
  refine ⟨List.nodup_append.mpr ⟨nodup, reserved.new.1, fun name mem name' mem' eq => ?_⟩, ?_⟩
  · exact free name mem (eq ▸ reserved.before mem')
  · intro name mem taken
    rcases List.mem_append.mp mem with mem | mem
    · exact free name mem (reserved.params taken)
    · exact reserved.new.2 name mem taken

theorem labels : (function.layout.filterMap fun id => (function.block id).label).Nodup := by
  rw [finished.layout, finished.block]
  refine List.pairwise_filterMap.mpr (finished.valid.nodup.imp_of_mem ?_)
  intro id id' mem mem' ne label eq label' eq' same
  rcases Nat.eq_zero_or_pos id with rfl | pos
  · simp [finished.valid.entryLabel] at eq
  rcases Nat.eq_zero_or_pos id' with rfl | pos'
  · simp [finished.valid.entryLabel] at eq'
  rw [finished.valid.labels id pos (finished.valid.placed_lt id mem)] at eq
  rw [finished.valid.labels id' pos' (finished.valid.placed_lt id' mem')] at eq'
  exact ne (Supply.label_injective (Option.some.inj (eq.trans (same ▸ eq'.symm))))

theorem wellFormed (reserved : start.Reserved) : function.WellFormed where
  starts := by simp [finished.layout, Site.layout]
  placed := by
    intro id lt
    rwa [finished.placed_iff, ← finished.size]
  closed := by
    intro id mem
    rw [finished.layout] at mem
    rw [finished.block]
    by_cases current : id = site.current
    · subst current
      simpa [Site.Open, Site.block, Option.isSome_iff_ne_none] using finished.closed
    · exact finished.valid.closed id mem current
  targets := by
    intro id mem target target_mem
    rw [finished.block] at target_mem
    obtain ⟨pos, lt⟩ := finished.valid.targets id target target_mem
    refine ⟨(finished.placed_iff target).mpr lt, ?_⟩
    rw [finished.entry]
    exact Nat.ne_of_gt pos
  labels := finished.labels
  lead := by
    intro id _
    rw [finished.block]
    exact finished.valid.lead id
  sources := by
    intro id _ instr mem incoming eq source source_mem
    rw [finished.block] at mem ⊢
    have leads := ((finished.valid.merges id instr mem incoming eq).2 source).mp source_mem
    refine ⟨?_, leads⟩
    by_contra new
    rw [finished.layout] at new
    simp [Block.successors, (finished.valid.blank source new).2] at leads
  temps := by
    rw [finished.instrs, Counted, finished.valid.temps]
    simp
  locals := by
    rw [finished.params]
    exact finished.locals reserved

/-- Each block that was created stands at one place. -/
theorem layout_perm : function.layout.Perm (List.range function.blocks.length) := by
  have nodup : function.layout.Nodup := finished.layout ▸ finished.valid.nodup
  refine (List.perm_ext_iff_of_nodup nodup List.nodup_range).mpr fun id => ?_
  rw [finished.placed_iff, List.mem_range, finished.size]

end Finished

/-- A function that stands for one of the source is well-formed. -/
theorem Renders.wellFormed {types : Registry} {signatures : SignatureTable} {entry : String}
    {source : Tree.Function} {function : Function}
    (renders : Renders types signatures entry source function) :
    function.layout.Perm (List.range function.blocks.length) ∧ function.WellFormed := by
  obtain ⟨start, starts, emitted⟩ := renders
  obtain ⟨_, _, _, _, _, _, finished⟩ := emitted.finished starts.plain
  exact ⟨finished.layout_perm, finished.wellFormed (Start.reserved_of_starts starts)⟩

namespace Codegen

variable {source : Tree.Module} {types : Registry} {options : CodegenOptions}
  {progress : Progress}

/-- A code that is generated and checked has no faults. -/
theorem generateChecked_yields :
    Yields (generateChecked source types options) progress fun checked _ =>
      checked = (checked.1, []) ∧ checked.1.faults = [] ∧ ∀ function ∈ checked.1.functions,
        function.layout.Perm (List.range function.blocks.length) ∧ function.WellFormed := by
  refine (generate_yields source types options).bind fun generated _ ⟨signatures, _, renders⟩ => ?_
  have wellFormed : ∀ function ∈ generated.functions,
      function.layout.Perm (List.range function.blocks.length) ∧ function.WellFormed := by
    intro function mem
    obtain ⟨source, _, renders⟩ := exists_renders renders function mem
    exact renders.wellFormed
  have faultless : generated.faults = [] := by
    refine List.flatMap_eq_nil_iff.mpr fun function mem => ?_
    exact function.faults_eq_nil_iff.mpr (wellFormed function mem).2
  refine (note_yields _ _).bind fun _ _ _ => Yields.done ?_
  exact ⟨by rw [faultless], faultless, wellFormed⟩

theorem emit_yields : Yields (emit source types options) progress fun _ _ => True := by
  refine generateChecked_yields.bind ?_
  rintro ⟨generated, faults⟩ _ ⟨eq, _⟩
  cases eq
  exact Yields.done trivial

/-- Generation gives well-formed code, in which the check finds no faults, or it fails with an error
    that points at a defect of the module or of the registry. -/
theorem generateChecked_wellFormed (source : Tree.Module) (types : Registry)
    (options : CodegenOptions) :
    (match (run (generateChecked source types options)).1 with
      | .ok (generated, faults) =>
        faults = [] ∧ generated.faults = [] ∧ ∀ function ∈ generated.functions,
          function.layout.Perm (List.range function.blocks.length) ∧ function.WellFormed
      | .error error => error.Proper) ∧
    ∀ error, (run (emit source types options)).1 = .error error → error.Proper := by
  refine ⟨?_, fun error => run_error emit_yields⟩
  split
  · next result =>
      obtain ⟨_, eq, faultless, wellFormed⟩ := run_ok generateChecked_yields result
      exact ⟨congrArg Prod.snd eq, faultless, wellFormed⟩
  · next result => exact run_error generateChecked_yields result

end Codegen

end LlvmBackend
