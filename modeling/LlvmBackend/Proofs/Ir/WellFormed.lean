import LlvmBackend.Ir.Verifier
import LlvmBackend.Proofs.Site.Grows

/-! # Well-formed functions

What the check of intermediate code decides: a function has no faults exactly if it is well-formed
(`Function.faults_eq_nil_iff`), and a module if all its functions are (`Module.faultless_iff`).
-/

namespace LlvmBackend.Ir

/-- Numbers count up from a given one. -/
def Counted (start : Nat) (numbers : List Nat) : Prop :=
  numbers = List.range' start numbers.length

/-- Names that differ from each other and from those that are taken. -/
def New (taken names : List String) : Prop := names.Nodup ∧ ∀ name ∈ names, name ∉ taken

theorem counted_nil (start : Nat) : Counted start [] := rfl

theorem counted_cons {start n : Nat} {numbers : List Nat} :
    Counted start (n :: numbers) ↔ n = start ∧ Counted (start + 1) numbers := by
  simp [Counted, List.range'_succ]

theorem counted_append {start : Nat} {first second : List Nat} :
    Counted start (first ++ second) ↔ Counted start first ∧ Counted (start + first.length) second := by
  induction first generalizing start with
  | nil => simp [counted_nil]
  | cons n first ih =>
      rw [List.cons_append, counted_cons, counted_cons, ih, List.length_cons, and_assoc,
        Nat.add_right_comm, Nat.add_assoc start]

theorem new_nil (taken : List String) : New taken [] := by simp [New]

theorem new_append {taken first second : List String} :
    New taken (first ++ second) ↔ New taken first ∧ New (first.reverse ++ taken) second := by
  simp only [New, List.nodup_append, List.mem_append, List.mem_reverse, or_imp, forall_and, not_or]
  constructor
  · rintro ⟨⟨nodup, nodup', apart⟩, free, free'⟩
    exact ⟨⟨nodup, free⟩, nodup', fun name mem mem' => apart name mem' name mem rfl, free'⟩
  · rintro ⟨⟨nodup, free⟩, nodup', apart, free'⟩
    exact ⟨⟨nodup, nodup', fun name mem other mem' eq => apart other mem' (eq ▸ mem)⟩, free, free'⟩

namespace Function

variable (function : Function)

/-- All instructions in the order in which they stand. -/
def instrs : List Instr := function.layout.flatMap fun id => (function.block id).instrs

/-- A function is well-formed. -/
structure WellFormed : Prop where
  starts : function.layout ≠ []
  placed : ∀ id < function.blocks.length, id ∈ function.layout
  closed : ∀ id ∈ function.layout, (function.block id).terminator.isSome
  targets : ∀ id ∈ function.layout, ∀ target ∈ (function.block id).successors,
    target ∈ function.layout ∧ target ≠ function.entry
  labels : (function.layout.filterMap fun id => (function.block id).label).Nodup
  /-- Merges stand first in their block. -/
  lead : ∀ id ∈ function.layout,
    (function.block id).instrs.Pairwise fun before after => after.isPhi → before.isPhi
  /-- Control can go straight to a merge from each block that it names. -/
  sources : ∀ id ∈ function.layout, ∀ instr ∈ (function.block id).instrs,
    ∀ incoming ∈ instr.incoming?, ∀ source ∈ incoming.map Prod.snd,
      source ∈ function.layout ∧ id ∈ (function.block source).successors
  /-- The temporaries are 1, 2, 3 and so on. -/
  temps : Counted 1 (function.instrs.filterMap Instr.number?)
  locals : New (function.params.map Param.name) (function.instrs.filterMap Instr.localName?)

/-! ## Checking definitions -/

namespace Seen

/-- What is known behind instructions without faults. -/
def after (seen : Seen) (instrs : List Instr) : Seen where
  labels := seen.labels
  locals := (instrs.filterMap Instr.localName?).reverse ++ seen.locals
  nextTemp := seen.nextTemp + (instrs.filterMap Instr.number?).length

/-- The definitions of instructions have no faults behind what is known. -/
def Fits (seen : Seen) (instrs : List Instr) : Prop :=
  Counted seen.nextTemp (instrs.filterMap Instr.number?) ∧
    New seen.locals (instrs.filterMap Instr.localName?)

variable {seen : Seen}

theorem after_append (first second : List Instr) :
    seen.after (first ++ second) = (seen.after first).after second := by
  simp [after, Nat.add_assoc]

theorem fits_append {first second : List Instr} :
    seen.Fits (first ++ second) ↔ seen.Fits first ∧ (seen.after first).Fits second := by
  simp only [Fits, List.filterMap_append, counted_append, new_append, after]
  exact and_and_and_comm

theorem fits_nil : seen.Fits [] := ⟨counted_nil _, new_nil _⟩

end Seen

theorem checkDest_eq (seen : Seen) (instr : Instr) :
    ((function.checkDest seen instr.dest).1 = [] ↔ seen.Fits [instr]) ∧
      (seen.Fits [instr] → (function.checkDest seen instr.dest).2 = seen.after [instr]) := by
  rcases dest : instr.dest with _ | register
  · simp [checkDest, Seen.Fits, Seen.after, Instr.number?, Instr.localName?, dest, counted_nil,
      new_nil]
  · cases register with
    | temp n =>
        simp [checkDest, Seen.Fits, Seen.after, Instr.number?, Instr.localName?, dest,
          Operand.temp?, counted_cons, counted_nil, new_nil]
    | named name =>
        by_cases taken : name ∈ seen.locals <;>
          simp [checkDest, Seen.Fits, Seen.after, Instr.number?, Instr.localName?, dest,
            Operand.temp?, counted_nil, New, taken]
    | symbol name | bool value | int value =>
        simp [checkDest, Seen.Fits, Seen.after, Instr.number?, Instr.localName?, dest,
          Operand.temp?, counted_nil, new_nil]

/-! ## Checking merges -/

/-- The merges of instructions have no faults. -/
def MergesFit (id : BlockId) (instrs : List Instr) : Prop :=
  ∀ instr ∈ instrs, ∀ incoming ∈ instr.incoming?, ∀ source ∈ incoming.map Prod.snd,
    source ∈ function.layout ∧ id ∈ (function.block source).successors

theorem branches_iff {source target : BlockId} :
    function.branches source target ↔ target ∈ (function.block source).successors := by
  unfold branches Block.successors
  cases (function.block source).terminator <;> simp

theorem incomingFaults_eq {id source : BlockId} :
    function.incomingFaults id source = [] ↔
      source ∈ function.layout ∧ id ∈ (function.block source).successors := by
  rw [← branches_iff]
  unfold incomingFaults
  split
  · next absent => simp [absent]
  · next there => split <;> simp_all

theorem phiFaults_eq {id : BlockId} {afterOther : Bool} {instr : Instr} :
    function.phiFaults id afterOther instr = [] ↔
      (instr.isPhi → afterOther = false) ∧ function.MergesFit id [instr] := by
  unfold phiFaults
  cases merges : instr.incoming? with
  | none => simp [Instr.isPhi, MergesFit, merges]
  | some incoming =>
      have fits : function.MergesFit id [instr] ↔ ∀ pair ∈ incoming,
          pair.2 ∈ function.layout ∧ id ∈ (function.block pair.2).successors := by
        simp only [MergesFit, List.mem_singleton, forall_eq, merges, Option.mem_def,
          Option.some.injEq, forall_eq', List.forall_mem_map]
      rw [List.append_eq_nil_iff, List.flatMap_eq_nil_iff, fits]
      simp only [incomingFaults_eq]
      cases afterOther <;> simp [Instr.isPhi, merges]

/-- Behind an instruction that is no merge there is none. -/
def Led (afterOther : Bool) (instrs : List Instr) : Prop :=
  (afterOther → ∀ instr ∈ instrs, instr.isPhi = false) ∧
    instrs.Pairwise fun before after => after.isPhi → before.isPhi

theorem led_cons {afterOther : Bool} {instr : Instr} {rest : List Instr} :
    Led afterOther (instr :: rest) ↔
      (instr.isPhi → afterOther = false) ∧ Led (afterOther || !instr.isPhi) rest := by
  cases afterOther <;> cases isPhi : instr.isPhi <;> simp_all [Led, List.pairwise_cons]

theorem mergesFit_cons {id : BlockId} {instr : Instr} {rest : List Instr} :
    function.MergesFit id (instr :: rest) ↔
      function.MergesFit id [instr] ∧ function.MergesFit id rest := by
  simp [MergesFit]

/-- What checking the instructions of a block finds, and what is known behind them. -/
theorem checkInstrs_eq (id : BlockId) (afterOther : Bool) (seen : Seen) (instrs : List Instr) :
    ((function.checkInstrs id afterOther seen instrs).1 = [] ↔
        Led afterOther instrs ∧ function.MergesFit id instrs ∧ seen.Fits instrs) ∧
      (seen.Fits instrs → (function.checkInstrs id afterOther seen instrs).2 = seen.after instrs) := by
  induction instrs generalizing afterOther seen with
  | nil => simp [checkInstrs, Led, MergesFit, Seen.fits_nil, Seen.after]
  | cons instr rest ih =>
      obtain ⟨found, known⟩ := function.checkDest_eq seen instr
      have fits : seen.Fits (instr :: rest) ↔ seen.Fits [instr] ∧ (seen.after [instr]).Fits rest :=
        @Seen.fits_append seen [instr] rest
      have behind : seen.after (instr :: rest) = (seen.after [instr]).after rest :=
        Seen.after_append [instr] rest
      rw [checkInstrs, fits, behind, led_cons, mergesFit_cons]
      simp only [List.append_eq_nil_iff, found, phiFaults_eq]
      constructor
      · by_cases here : seen.Fits [instr]
        · rw [known here, (ih _ _).1]
          tauto
        · tauto
      · rintro ⟨here, there⟩
        rw [known here]
        exact (ih _ _).2 there

/-! ## Checking blocks -/

/-- The labels of blocks. -/
def labelsOf (ids : List BlockId) : List String :=
  ids.filterMap fun id => (function.block id).label

/-- The instructions of blocks. -/
def instrsOf (ids : List BlockId) : List Instr := ids.flatMap fun id => (function.block id).instrs

theorem checkLabel_eq (seen : Seen) (id : BlockId) :
    ((function.checkLabel seen (function.block id).label).1 = [] ↔
        New seen.labels (function.labelsOf [id])) ∧
      (New seen.labels (function.labelsOf [id]) →
        (function.checkLabel seen (function.block id).label).2 =
          { seen with labels := (function.labelsOf [id]).reverse ++ seen.labels }) := by
  cases label : (function.block id).label with
  | none => simp [checkLabel, labelsOf, label, new_nil]
  | some text => by_cases taken : text ∈ seen.labels <;> simp [checkLabel, labelsOf, label, New, taken]

theorem terminatorFaults_eq {entry id : BlockId} :
    function.terminatorFaults entry id (function.block id).terminator = [] ↔
      (function.block id).terminator.isSome ∧ ∀ target ∈ (function.block id).successors,
        target ∈ function.layout ∧ target ≠ entry := by
  have targets : ∀ target, function.targetFaults entry id target = [] ↔
      target ∈ function.layout ∧ target ≠ entry := by
    intro target
    unfold targetFaults
    split
    · next eq => simp [eq]
    · next ne => split <;> simp_all
  cases terminator : (function.block id).terminator with
  | none => simp [terminatorFaults]
  | some terminator => simp [terminatorFaults, Block.successors, terminator, targets]

/-- One block has no faults of its own. -/
structure BlockFits (entry id : BlockId) : Prop where
  lead : (function.block id).instrs.Pairwise fun before after => after.isPhi → before.isPhi
  merges : function.MergesFit id (function.block id).instrs
  closed : (function.block id).terminator.isSome
  targets : ∀ target ∈ (function.block id).successors, target ∈ function.layout ∧ target ≠ entry

theorem checkBlocks_eq (entry : BlockId) (seen : Seen) (ids : List BlockId) :
    function.checkBlocks entry seen ids = [] ↔
      (∀ id ∈ ids, function.BlockFits entry id) ∧ New seen.labels (function.labelsOf ids) ∧
        seen.Fits (function.instrsOf ids) := by
  induction ids generalizing seen with
  | nil => simp [checkBlocks, labelsOf, instrsOf, Seen.fits_nil, new_nil]
  | cons id rest ih =>
      obtain ⟨labelFound, labelKnown⟩ := function.checkLabel_eq seen id
      have labels : New seen.labels (function.labelsOf (id :: rest)) ↔
          New seen.labels (function.labelsOf [id]) ∧
            New ((function.labelsOf [id]).reverse ++ seen.labels) (function.labelsOf rest) := by
        rw [← new_append, labelsOf, labelsOf, labelsOf, ← List.filterMap_append]
        rfl
      have fits : seen.Fits (function.instrsOf (id :: rest)) ↔
          seen.Fits (function.block id).instrs ∧
            (seen.after (function.block id).instrs).Fits (function.instrsOf rest) :=
        Seen.fits_append
      have lead : Led false (function.block id).instrs ↔
          (function.block id).instrs.Pairwise fun before after => after.isPhi → before.isPhi := by
        simp [Led]
      have block : function.BlockFits entry id ↔ Led false (function.block id).instrs ∧
          function.MergesFit id (function.block id).instrs ∧
            function.terminatorFaults entry id (function.block id).terminator = [] := by
        rw [lead, terminatorFaults_eq]
        exact ⟨fun h => ⟨h.lead, h.merges, h.closed, h.targets⟩, fun h => ⟨h.1, h.2.1, h.2.2.1, h.2.2.2⟩⟩
      rw [checkBlocks, List.forall_mem_cons, labels, fits, block]
      simp only [List.append_eq_nil_iff, labelFound]
      obtain ⟨instrsFound, instrsKnown⟩ := function.checkInstrs_eq id false
        { seen with labels := (function.labelsOf [id]).reverse ++ seen.labels }
        (function.block id).instrs
      constructor
      · rintro ⟨⟨⟨new, faultless⟩, ends⟩, others⟩
        rw [labelKnown new] at faultless others
        obtain ⟨led, merges, here⟩ := instrsFound.mp faultless
        rw [instrsKnown here, ih] at others
        obtain ⟨blocks, labels', there⟩ := others
        exact ⟨⟨⟨led, merges, ends⟩, blocks⟩, ⟨new, labels'⟩, here, there⟩
      · rintro ⟨⟨⟨led, merges, ends⟩, blocks⟩, ⟨new, labels'⟩, here, there⟩
        rw [labelKnown new]
        refine ⟨⟨⟨new, instrsFound.mpr ⟨led, merges, here⟩⟩, ends⟩, ?_⟩
        rw [instrsKnown here, ih]
        exact ⟨blocks, labels', there⟩

/-- The check finds no faults exactly in the well-formed functions. -/
theorem faults_eq_nil_iff : function.faults = [] ↔ function.WellFormed := by
  unfold faults
  cases layout : function.layout with
  | nil => simpa using fun wellFormed : function.WellFormed => wellFormed.starts layout
  | cons start rest =>
      have unplaced : function.unplacedFaults = [] ↔
          ∀ id < function.blocks.length, id ∈ function.layout := by
        simp [unplacedFaults]
      have entry : function.entry = start := by simp [Function.entry, layout]
      simp only [List.append_eq_nil_iff, unplaced, checkBlocks_eq]
      rw [← layout, ← entry]
      constructor
      · rintro ⟨placed, blocks, labels, temps, locals⟩
        exact {
          starts := by simp [layout]
          placed
          closed := fun id mem => (blocks id mem).closed
          targets := fun id mem => (blocks id mem).targets
          labels := labels.1
          lead := fun id mem => (blocks id mem).lead
          sources := fun id mem => (blocks id mem).merges
          temps
          locals }
      · intro h
        refine ⟨h.placed, fun id mem => ?_, ⟨h.labels, by simp⟩, h.temps, h.locals⟩
        exact ⟨h.lead id mem, h.sources id mem, h.closed id mem, h.targets id mem⟩

end Function

/-- The check accepts exactly the modules all of whose functions are well-formed. -/
theorem Module.faultless_iff (module : Module) :
    module.faults = [] ↔ ∀ function ∈ module.functions, function.WellFormed := by
  rw [faults, List.flatMap_eq_nil_iff]
  simp only [Function.faults_eq_nil_iff]

end LlvmBackend.Ir
