import LlvmBackend.Proofs.Structure
import LlvmBackend.Proofs.Translation.Supplied

/-! # Emitted functions are in static single assignment form

Control passes the definition of a register before each read of it, and merges name the blocks that
control comes from. The code of a function is supplied by its parameters, which gives this for the
walks through it.
-/

namespace LlvmBackend

open Ir Lowering

/-- The registers that parameters are. -/
def Ir.Function.paramRegisters (function : Function) : List Operand :=
  function.params.map fun param => .named param.name

/-! ## Instructions one after the other -/

/-- Instructions read what is known before all of them or defined by an earlier one. -/
def InOrder : List Operand → List Instr → Prop
  | _, [] => True
  | known, i :: rest =>
    i.incoming? = none ∧ (∀ operand ∈ i.reads, operand.Known known) ∧
      InOrder (i.dest.toList ++ known) rest

/-- What is known behind instructions. -/
def definedBy (known : List Operand) (instrs : List Instr) : List Operand :=
  (instrs.filterMap Instr.dest).reverse ++ known

theorem definedBy_cons (known : List Operand) (i : Instr) (rest : List Instr) :
    definedBy known (i :: rest) = definedBy (i.dest.toList ++ known) rest := by
  cases dest : i.dest <;> simp [definedBy, dest]

theorem InOrder.supplied {known : List Operand} {instrs : List Instr} (h : InOrder known instrs) :
    Supplied known (.straight instrs) (definedBy known instrs) := by
  induction instrs generalizing known with
  | nil => exact .skip (List.Subset.refl _)
  | cons i rest ih =>
      obtain ⟨plain, reads, order⟩ := h
      rw [definedBy_cons]
      exact .seq (.instr plain reads (List.Subset.refl _)) (ih order)

theorem inOrder_append {known : List Operand} {first second : List Instr} :
    InOrder known (first ++ second) ↔
      InOrder known first ∧ InOrder (definedBy known first) second := by
  induction first generalizing known with
  | nil => simp [InOrder, definedBy]
  | cons i rest ih => simp only [List.cons_append, InOrder, ih, definedBy_cons, and_assoc]

theorem InOrder.mono {known more : List Operand} {instrs : List Instr} (h : InOrder known instrs)
    (sub : known ⊆ more) : InOrder more instrs := by
  induction instrs generalizing known more with
  | nil => trivial
  | cons i rest ih =>
      obtain ⟨plain, reads, order⟩ := h
      refine ⟨plain, fun operand mem => (reads operand mem).mono sub, ih order ?_⟩
      exact List.append_subset.mpr ⟨List.subset_append_left _ _,
        List.subset_append_of_subset_right _ sub⟩

theorem inOrder_slots {known : List Operand} {slots : List Instr}
    (named : ∀ slot ∈ slots, ∃ name type, slot = .alloca (.named name) type) :
    InOrder known slots := by
  induction slots generalizing known with
  | nil => trivial
  | cons slot rest ih =>
      obtain ⟨⟨name, type, rfl⟩, others⟩ := List.forall_mem_cons.mp named
      exact ⟨rfl, by simp [Instr.reads], ih others⟩

namespace Start

/-- The registers that the parameters of a function are. -/
def registers (start : Start) : List Operand :=
  start.header.params.map fun param => .named param.name

/-- What a function does first and what its body knows of names is there. -/
structure Supplies (types : Registry) (signatures : SignatureTable) (start : Start) : Prop where
  before : InOrder start.registers start.before
  names : start.names.Known (definedBy start.registers start.before)
  result : Translation.ResultKnown ⟨types, signatures, start.outcome⟩ start.registers
  atEnd : ∀ typed ∈ start.atEnd, typed.operand.isRegister = false

theorem supplies_entry (types : Registry) (signatures : SignatureTable) (arguments : TypeId) :
    (ofEntry types arguments).Supplies types signatures where
  before := by
    simp [ofEntry, prologue, InOrder, registers, Instr.incoming?, Instr.reads, Instr.dest,
      Operand.Known, Operand.isRegister]
  names := by
    intro name value found
    have there : ∀ name ∈ ["name", "args"], (Operand.named name).Known
        (definedBy (ofEntry types arguments).registers (ofEntry types arguments).before) := by
      simp [ofEntry, prologue, registers, definedBy, Instr.dest, Operand.Known]
    simp only [ofEntry, Scopes.lookup_push, Scopes.lookup_define] at found
    split at found
    · cases found
      exact Translation.known_addressed (there _ (by simp)) (Translation.known_constant rfl)
    · split at found
      · cases found
        exact Translation.known_addressed (there _ (by simp)) (Translation.known_constant rfl)
      · simp at found
  result := by
    rintro type ⟨⟩
  atEnd := by
    rintro _ ⟨⟩
    rfl

theorem known_paramValue {types : Registry} {known : List Operand} {name : String} {type : TypeId}
    (h : .named name ∈ known) : (paramValue types name type).Known known := by
  refine ⟨Translation.known_constant rfl, fun operand mem _ => ?_⟩
  unfold paramValue at mem
  split at mem <;> exact (List.mem_singleton.mp mem) ▸ h

theorem supplies_opening {types : Registry} {signatures : SignatureTable} {source : Tree.Function}
    {opening : Opening} (returns : TypeId)
    (entered : source.params.foldlM (Opening.addParam types source.name) {} = .ok opening) :
    (ofOpening source returns (opening.addResult types returns)).Supplies types signatures where
  before := trivial
  names := by
    have params : ∀ name value, opening.scopes.lookup name = some value →
        value.Known (opening.params.map fun param => .named param.name) := by
      refine addParams_induct (motive := fun _ opening =>
        ∀ name value, opening.scopes.lookup name = some value →
          value.Known (opening.params.map fun param => .named param.name)) entered (by simp) ?_
      intro opening param _ type _ _ ih name value found
      rw [withParam, Scopes.lookup_define] at found
      split at found
      · cases found
        exact known_paramValue (by simp [withParam])
      · exact (ih name value found).mono (by simp [withParam])
    intro name value found
    have kept : opening.params ⊆ (opening.addResult types returns).params := by
      unfold Opening.addResult
      split <;> simp
    simp only [ofOpening, scopes_addResult, Scopes.lookup_push] at found
    exact (params name value found).mono (List.map_subset _ kept)
  result := by
    rintro type ⟨⟩ notVoid
    simp [registers, ofOpening, Opening.addResult, notVoid]
  atEnd := by simp [ofOpening]

theorem supplies_of_starts {types : Registry} {signatures : SignatureTable} {entry : String}
    {source : Tree.Function} {start : Start} (starts : Starts types entry source start) :
    start.Supplies types signatures := by
  cases starts with
  | entry => exact supplies_entry types signatures _
  | function _ _ entered => exact supplies_opening _ entered

end Start

namespace Finished

variable {types : Registry} {signatures : SignatureTable} {start : Start} {function : Function}
  {slots : List Instr} {body : List Stmt} {names : Names} {ended : Bool} {code : Code} {site : Site}

section

variable (finished : Finished start function slots (code.returning ended start.atEnd) site)
  (lowers : Translation.Lowers ⟨types, signatures, start.outcome⟩ (.suite body) start.names names
    ended code)
  (supplies : start.Supplies types signatures)
include finished lowers supplies

/-- All code of a function is supplied by its parameters. -/
theorem supplied : Supplied function.paramRegisters
    (.seq (.straight (slots ++ start.before)) (code.returning ended start.atEnd)) [] := by
  have registers : function.paramRegisters = start.registers := by
    rw [Function.paramRegisters, finished.params, Start.registers]
  have sub : start.registers ⊆ definedBy start.registers (slots ++ start.before) :=
    List.subset_append_right _ _
  have order : InOrder start.registers (slots ++ start.before) :=
    inOrder_append.mpr ⟨inOrder_slots finished.named,
      supplies.before.mono (List.subset_append_right _ _)⟩
  have known : start.names.Known (definedBy start.registers (slots ++ start.before)) :=
    supplies.names.mono (by simp [definedBy])
  have asked : Translation.SlotsKnown (definedBy start.registers (slots ++ start.before)) code := by
    intro slot mem operand dest
    have mem : slot ∈ (code.returning ended start.atEnd).slots := by
      unfold Code.returning
      split
      · exact mem
      · exact List.mem_append_left _ mem
    have mem := (finished.build.mem_slots slot).mpr (.inr mem)
    rw [finished.slots] at mem
    have : operand ∈ slots.filterMap Instr.dest := List.mem_filterMap.mpr ⟨slot, mem, dest⟩
    simp [definedBy, this]
  obtain ⟨supplied, _⟩ := lowers.supplied known asked fun type outcome notVoid =>
    sub (supplies.result type outcome notVoid)
  rw [registers]
  refine .seq order.supplied ?_
  unfold Code.returning
  split
  · exact supplied.forget (List.nil_subset _)
  · exact .seq supplied ((Translation.ret_supplied supplies.atEnd).forget (List.nil_subset _))

/-- A walk through a function reads what is known. -/
theorem sound {moves : List Move} {stop : Option Spot} (walk : function.Walk moves stop) :
    (⟨function.paramRegisters, function.paramRegisters, none⟩ : Trail).Sound moves := by
  obtain ⟨marks, laid⟩ := finished.laid
  have supplied := (finished.supplied lowers supplies).sound
  have follows : Follows function.table (.start function.entry)
      (.seq (.straight (slots ++ start.before)) (code.returning ended start.atEnd)) (.start 0)
      moves stop := (laid _).follows walk
  cases follows with
  | beyond exec _ => cases finished.returns exec
  | within exec eq _ =>
      have sound := (supplied _ _ _ exec ⟨_, function.paramRegisters, none⟩ (List.Subset.refl _)).1
      rw [eq, Trail.sound_append] at sound
      exact sound.1

omit finished lowers supplies in
/-- What is known behind a walk is a parameter or was defined on the way. -/
theorem defined_of_known {moves : List Move} {stop : Option Spot}
    (walk : function.Walk moves stop) {register : Operand}
    (mem : register ∈ ((⟨function.paramRegisters, function.paramRegisters, none⟩ : Trail).afterAll
      moves).known) :
    register ∈ function.paramRegisters ∨ ∃ place i, function.table.Holds place i ∧
      i.dest = some register ∧ place ∈ moves.map Move.spot := by
  rcases Trail.mem_known_afterAll _ mem with param | ⟨place, i, mem, dest⟩
  · exact .inl param
  · exact .inr ⟨place, i, walk.holds_of_mem mem, dest, List.mem_map.mpr ⟨_, mem, rfl⟩⟩

/-- A register that is read is a parameter or defined somewhere. -/
theorem exists_definition {use : Spot} {register : Operand} (reads : function.Reads use register)
    (isRegister : register.isRegister) : register ∈ function.paramRegisters ∨
      ∃ place i, function.table.Holds place i ∧ i.dest = some register := by
  have known := (finished.supplied lowers supplies).reads.2
  obtain ⟨marks, laid⟩ := finished.laid
  have found : ∀ part ∈ (Code.seq (.straight (slots ++ start.before))
      (code.returning ended start.atEnd)).parts, register ∈ part.reads →
      register ∈ function.paramRegisters ∨
        ∃ place i, function.table.Holds place i ∧ i.dest = some register := by
    intro part mem read
    refine (List.mem_append.mp (known part mem register read isRegister)).imp_right fun defined => ?_
    obtain ⟨source, mem, dest⟩ := List.mem_filterMap.mp defined
    cases source with
    | instr role i =>
        obtain ⟨place, holds⟩ := (laid (.start 0)).holds mem
        exact ⟨place, i, holds, dest⟩
    | read | slot | ends => cases dest
  cases reads with
  | instr holds _ mem =>
      obtain ⟨role, there⟩ := finished.exists_part (List.mem_of_getElem? holds)
      exact found _ there mem
  | terminator ends mem => exact found _ (finished.ends_mem_parts ends.2) mem
  | phi holds merges mem =>
      obtain ⟨role, there⟩ := finished.exists_part (List.mem_of_getElem? holds)
      refine found _ there ?_
      rw [Part.reads, Instr.reads_of_merge merges]
      exact List.mem_map.mpr ⟨_, mem, rfl⟩

/-- Where a register is read it is known, whatever way control came. -/
theorem known_of_reads {use : Spot} {register : Operand} (reads : function.Reads use register)
    (isRegister : register.isRegister) {moves : List Move} (walk : function.Walk moves (some use)) :
    register ∈ ((⟨function.paramRegisters, function.paramRegisters, none⟩ : Trail).afterAll
      moves).known := by
  cases reads with
  | @instr _ i operand holds plain mem =>
      have sound := finished.sound lowers supplies (walk.append (.single (.instr holds)))
      have allows := (Trail.sound_append _).mp sound |>.2.1
      rw [Trail.Allows, plain] at allows
      exact allows register mem isRegister
  | @terminator _ terminator operand ends mem =>
      cases terminator with
      | br target => cases mem
      | condBr flag onTrue onFalse =>
          cases List.mem_singleton.mp mem
          have sound := finished.sound lowers supplies (walk.append (.single (.onTrue ends)))
          exact (Trail.sound_append _).mp sound |>.2.1 isRegister
      | ret value =>
          have sound := finished.sound lowers supplies (walk.append (.single (.ret ends)))
          exact (Trail.sound_append _).mp sound |>.2.1 register mem isRegister
  | @phi p i incoming operand source holds merges mem =>
      -- The walk goes on into the block of the merge and up to the merge.
      have valid := finished.valid
      have leads : p.block ∈ (site.table source).successors := by
        have there : i ∈ (site.table p.block).instrs := finished.block ▸ List.mem_of_getElem? holds
        exact ((valid.merges p.block i there incoming merges).2 source).mp
          (List.mem_map.mpr ⟨_, mem, rfl⟩)
      cases terminator : (site.table source).terminator with
      | none => simp [Block.successors, terminator] at leads
      | some terminator' =>
          have ends : function.table.Ends ⟨source, (function.block source).instrs.length⟩
              terminator' := ⟨rfl, by rw [Function.table, finished.block, terminator]⟩
          have target : p.block ∈ terminator'.successors := by
            simpa [Block.successors, terminator] using leads
          obtain ⟨move, step, after⟩ := Trail.exists_step _ ends target
          obtain ⟨run, along, instrs⟩ := Walk.along (Nat.le_of_lt holds.index_lt)
          have sound := finished.sound lowers supplies
            (walk.append (.cons step (along.append (.single (.instr holds)))))
          have here := ((Trail.sound_append _).mp sound).2.2
          have allows := ((Trail.sound_append _).mp here).2.1
          obtain ⟨from', entering⟩ := Trail.afterAll_instrs _ instrs
          rw [Trail.Allows, merges] at allows
          have known := allows (register, source) mem (by rw [from', after]) isRegister
          rwa [entering, after] at known


theorem ssa (wellFormed : function.WellFormed) : function.Ssa where
  defined := by
    intro use register reads isRegister
    by_cases param : register ∈ function.paramRegisters
    · obtain ⟨param, mem, eq⟩ := List.mem_map.mp param
      exact .inl ⟨param, mem, eq.symm⟩
    · obtain ⟨place, i, holds, dest⟩ :=
        (finished.exists_definition lowers supplies reads isRegister).resolve_left param
      refine .inr ⟨place, i, holds, dest, fun moves walk => ?_⟩
      have known := finished.known_of_reads lowers supplies reads isRegister walk
      obtain ⟨place', i', holds', dest', passed⟩ :=
        (defined_of_known walk known).resolve_left param
      rwa [wellFormed.place_unique holds holds' dest dest' isRegister]
  merges := by
    intro id i mem incoming eq
    rw [finished.block] at mem
    obtain ⟨nodup, sources⟩ := finished.valid.merges id i mem incoming eq
    refine ⟨nodup, fun source => ?_⟩
    rw [sources source, finished.block, finished.layout]
    refine ⟨fun leads => ⟨?_, leads⟩, And.right⟩
    by_contra new
    simp [Block.successors, (finished.valid.blank source new).2] at leads

end

end Finished

/-- A function that stands for one of the source is in static single assignment form. -/
theorem Renders.ssa {types : Registry} {signatures : SignatureTable} {entry : String}
    {source : Tree.Function} {function : Function}
    (renders : Renders types signatures entry source function) : function.Ssa := by
  obtain ⟨start, starts, emitted⟩ := renders
  obtain ⟨_, _, _, _, _, lowers, finished⟩ := emitted.finished starts.plain
  exact finished.ssa lowers (Start.supplies_of_starts starts)
    (finished.wellFormed (Start.reserved_of_starts starts))

namespace Codegen

/-- Generated functions are in static single assignment form. -/
theorem generate_ssa {source : Tree.Module} {types : Registry} {options : CodegenOptions}
    {generated : Module} (accepted : (run (generate source types options)).1 = .ok generated) :
    ∀ function ∈ generated.functions, function.Ssa := by
  obtain ⟨_, signatures, _, renders⟩ := run_ok (generate_yields source types options) accepted
  intro function mem
  obtain ⟨_, _, renders⟩ := exists_renders renders function mem
  exact renders.ssa

/-- A function whose only expression has its value from two blocks. -/
def connective : Tree.Module where
  functions :=
    [{ name := "both", params := [⟨"x", "bool"⟩, ⟨"y", "bool"⟩]
       body := [.effect (.and (.name "x") (.name "y"))] }]

theorem connective_ssa : ∃ generated, (run (generate connective .builtin {})).1 = .ok generated ∧
    generated.functions ≠ [] ∧ ∀ function ∈ generated.functions, function.Ssa := by
  have accepted : (match (run (generate connective .builtin {})).1 with
      | .ok generated => !generated.functions.isEmpty
      | .error _ => false) = true := by decide +kernel
  cases result : (run (generate connective .builtin {})).1 with
  | error error => simp [result] at accepted
  | ok generated =>
      rw [result] at accepted
      exact ⟨generated, rfl, by simpa using accepted, generate_ssa result⟩

end Codegen

end LlvmBackend
