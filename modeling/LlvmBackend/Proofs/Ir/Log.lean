import LlvmBackend.Ir.Builder

/-! # Logs of builders

A builder is used operation by operation, in any order: blocks are entered again, and slots are put
before code that is already finished. The function that it builds is told by a log of the operations.
Main statement: `Ir.Builder.logs_record`.
-/

namespace LlvmBackend.Ir

namespace Builder

/-! ## Operations -/

/-- What is done with a builder. -/
inductive Operation where
  | createBlock (label hint : String)
  | switchTo (block : BlockId)
  | emit (instr : Instr)
  | terminate (terminator : Terminator)
  | hoist (instr : Instr)

namespace Operation

/-- The label and the hint of a block that is created. -/
def created? : Operation → Option (Option String × Option String)
  | .createBlock label hint => some (some label, some hint)
  | _ => none

def entered? : Operation → Option BlockId
  | .switchTo block => some block
  | _ => none

def emitted? : Operation → Option Instr
  | .emit instr => some instr
  | _ => none

def terminator? : Operation → Option Terminator
  | .terminate terminator => some terminator
  | _ => none

def hoisted? : Operation → Option Instr
  | .hoist instr => some instr
  | _ => none

/-- Whether an operation adds to the block in use. -/
def adds : Operation → Bool
  | .emit _ | .terminate _ => true
  | _ => false

/-- A block with what an operation adds to it. -/
def addTo (operation : Operation) (block : Block) : Block :=
  { block with
    instrs := block.instrs ++ operation.emitted?.toList
    terminator := operation.terminator?.or block.terminator }

end Operation

/-- Operations that enter only blocks that were created before, while so many blocks are known. -/
def entersKnown (known : Nat) : List Operation → Bool
  | [] => true
  | .createBlock _ _ :: rest => entersKnown (known + 1) rest
  | .switchTo block :: rest => block < known && entersKnown known rest
  | _ :: rest => entersKnown known rest

/-- What an operation answers: the block that it created, if any, or an error. -/
abbrev Reply := Except CodegenError (Option BlockId)

/-- What comes of a change that can fail. -/
def settle (builder : Builder) : Except CodegenError Builder → Reply × Builder
  | .ok later => (.ok none, later)
  | .error error => (.error error, builder)

/-- Carries out an operation. -/
def perform (builder : Builder) : Operation → Reply × Builder
  | .createBlock label hint =>
    let (block, later) := builder.createBlock label hint
    (.ok (some block), later)
  | .switchTo block => (.ok none, builder.switchTo block)
  | .emit instr => builder.settle (builder.emit instr)
  | .terminate terminator => builder.settle (builder.terminate terminator)
  | .hoist instr => (.ok none, builder.hoist instr)

/-! ## Logs -/

/-- An operation as it is noted, with the block that was in use and what it answered. -/
structure Entry where
  block : BlockId
  operation : Operation
  reply : Reply

/-- The operations so far. -/
abbrev Log := List Entry

namespace Log

variable (log : Log)

/-- The blocks that were entered, beginning with the first block. -/
def entered : List BlockId := 0 :: log.filterMap (·.operation.entered?)

/-- The block in use is the last that was entered. -/
def current : BlockId := log.entered.getLastD 0

/-- The label and the hint of each block. -/
def titles : List (Option String × Option String) :=
  (none, none) :: log.filterMap (·.operation.created?)

/-- The instructions that stand before the code of the first block. -/
def hoisted : List Instr := log.filterMap (·.operation.hoisted?)

/-- The instructions that were added to a block. -/
def emitted (block : BlockId) : List Instr :=
  log.filterMap fun entry =>
    if entry.block = block ∧ entry.reply.toBool then entry.operation.emitted? else none

/-- The first terminator that was given while a block was in use. -/
def terminator (block : BlockId) : Option Terminator :=
  log.findSome? fun entry => if entry.block = block then entry.operation.terminator? else none

/-- A block without what stands before the code. -/
def code (block : BlockId) (title : Option String × Option String) : Block where
  label := title.1
  hint := title.2
  instrs := log.emitted block
  terminator := log.terminator block

/-- What the next operation is answered, if a builder was used from the start on. -/
def answer (start : Builder) (operation : Operation) : Reply :=
  if operation.adds ∧ (log.terminator log.current).isSome then
    .error (.blockAlreadyTerminated start.name
      ((log.titles[log.current]?.bind (·.1)).getD "entry"))
  else
    .ok (operation.created?.map fun _ => log.titles.length)

/-- Each operation was noted with the block that was in use and the answer that the entries before
    it tell. -/
def Coherent (start : Builder) : Prop :=
  ∀ (before : Log) (entry : Entry) (after : Log), log = before ++ entry :: after →
    entry.block = before.current ∧ entry.reply = before.answer start entry.operation

/-- The function that a log tells, if a builder was used from the start on. -/
def function (start : Builder) : Function where
  name := start.name
  returns := start.returns
  params := start.params
  attributes := start.attributes
  blocks := log.titles.mapIdx fun id title =>
    { log.code id title with
      instrs := (if id = 0 then log.hoisted else []) ++ log.emitted id }
  layout := log.entered.eraseDups

end Log

/-- Carries out operations one after the other and notes them. -/
def record (log : Log) (builder : Builder) : List Operation → Log × Builder
  | [] => (log, builder)
  | operation :: rest =>
    let (reply, later) := builder.perform operation
    record (log ++ [⟨log.current, operation, reply⟩]) later rest

/-! ## Longer logs -/

namespace Log

variable (log : Log) (entry : Entry)

theorem entered_concat :
    entered (log ++ [entry]) = log.entered ++ entry.operation.entered?.toList := by
  cases h : entry.operation.entered? <;> simp [entered, h]

theorem titles_concat :
    titles (log ++ [entry]) = log.titles ++ entry.operation.created?.toList := by
  cases h : entry.operation.created? <;> simp [titles, h]

theorem hoisted_concat :
    hoisted (log ++ [entry]) = log.hoisted ++ entry.operation.hoisted?.toList := by
  cases h : entry.operation.hoisted? <;> simp [hoisted, h]

theorem current_concat :
    current (log ++ [entry]) = entry.operation.entered?.getD log.current := by
  unfold current
  rw [entered_concat]
  cases entry.operation.entered? with
  | none => rw [Option.toList_none, List.append_nil, Option.getD_none]
  | some block => rw [Option.toList_some, List.getLastD_concat, Option.getD_some]

/-- An entry adds to its own block only, and to this one only what it can still take. -/
theorem code_concat (id : BlockId) (title : Option String × Option String) :
    code (log ++ [entry]) id title =
      if entry.block = id then
        { log.code id title with
          instrs := log.emitted id ++
            if entry.reply.toBool then entry.operation.emitted?.toList else []
          terminator := (log.terminator id).or entry.operation.terminator? }
      else log.code id title := by
  unfold code emitted terminator
  rw [List.filterMap_append, List.findSome?_append]
  by_cases here : entry.block = id
  · by_cases accepted : entry.reply.toBool
    · cases h : entry.operation.emitted? <;> simp [here, accepted, h]
    · simp [here, accepted]
  · simp [here]

theorem Coherent.concat {log : Log} {start : Builder} (coherent : log.Coherent start)
    {operation : Operation} {reply : Reply} (answer : reply = log.answer start operation) :
    Coherent (log ++ [⟨log.current, operation, reply⟩]) start := by
  intro before entry after eq
  rcases List.eq_nil_or_concat after with rfl | ⟨rest, last, rfl⟩
  · obtain ⟨rfl, same⟩ := List.append_inj' eq rfl
    cases same
    exact ⟨rfl, answer⟩
  · rw [List.concat_eq_append, ← List.cons_append, ← List.append_assoc] at eq
    exact coherent before entry rest (List.append_inj' eq rfl).1

/-- There is nothing in a block that was never in use. -/
theorem code_of_unused {id : BlockId} (unused : ∀ entry ∈ log, entry.block ≠ id)
    (title : Option String × Option String) :
    log.code id title = { label := title.1, hint := title.2 } := by
  have emitted : log.emitted id = [] := by
    refine List.filterMap_eq_nil_iff.mpr fun entry mem => ?_
    simp [unused entry mem]
  have terminator : log.terminator id = none := by
    refine List.findSome?_eq_none_iff.mpr fun entry mem => ?_
    simp [unused entry mem]
  rw [code, emitted, terminator]

end Log

/-! ## One operation -/

/-- What of a builder no operation changes. -/
def bare (builder : Builder) : Builder :=
  { builder with blocks := [], entered := [], current := 0, slots := [] }

theorem fields_of_bare {first second : Builder} (same : first.bare = second.bare) :
    first.name = second.name ∧ first.returns = second.returns ∧ first.params = second.params ∧
      first.attributes = second.attributes := by
  simpa [bare] using same

/-- What an operation is answered: it is refused if it adds to a block that control already leaves. -/
def answer (builder : Builder) (operation : Operation) : Reply :=
  if operation.adds ∧ builder.isTerminated then
    .error (.blockAlreadyTerminated builder.name (builder.block.label.getD "entry"))
  else
    .ok (operation.created?.map fun _ => builder.blocks.length)

/-- What an operation does to a builder. -/
structure Step (builder : Builder) (operation : Operation) (reply : Reply) (later : Builder) :
    Prop where
  answer : reply = builder.answer operation
  bare : later.bare = builder.bare
  blocks : later.blocks =
    (if reply.toBool then builder.blocks.modify builder.current operation.addTo
      else builder.blocks) ++
    (operation.created?.map fun title => { label := title.1, hint := title.2 }).toList
  layout : later.layout = builder.layout ++ operation.entered?.toList.removeAll builder.layout
  current : later.current = operation.entered?.getD builder.current
  slots : later.slots = builder.slots ++ operation.hoisted?.toList
  unchanged : reply.toBool = false → later = builder

theorem Step.refused {builder later : Builder} {operation : Operation} {reply : Reply}
    (step : Step builder operation reply later) :
    reply.toBool = false ↔ operation.adds ∧ builder.isTerminated := by
  rw [step.answer, Builder.answer]
  split
  · next refused => exact iff_of_true rfl refused
  · next accepted => exact iff_of_false nofun accepted

theorem addTo_of_silent {operation : Operation} (silent : operation.adds = false) :
    operation.addTo = id := by
  funext block
  cases operation with
  | emit | terminate => contradiction
  | createBlock | switchTo | hoist =>
      simp [Operation.addTo, Operation.emitted?, Operation.terminator?]

/-- An operation that adds nothing to the block in use is always carried out. -/
theorem step_silent {builder later : Builder} {operation : Operation} (silent : operation.adds = false)
    (bare : later.bare = builder.bare)
    (blocks : later.blocks = builder.blocks ++
      (operation.created?.map fun title => { label := title.1, hint := title.2 }).toList)
    (layout : later.layout = builder.layout ++ operation.entered?.toList.removeAll builder.layout)
    (current : later.current = operation.entered?.getD builder.current)
    (slots : later.slots = builder.slots ++ operation.hoisted?.toList) :
    Step builder operation (.ok (operation.created?.map fun _ => builder.blocks.length)) later where
  answer := (if_neg (by simp [silent])).symm
  bare := bare
  blocks := by rw [blocks, addTo_of_silent silent, List.modify_id, ite_self]
  layout := layout
  current := current
  slots := slots
  unchanged := nofun

theorem settle_modifyOpen (builder : Builder) (change : Block → Block) :
    builder.settle (builder.modifyOpen change) =
      if builder.isTerminated then
        (.error (.blockAlreadyTerminated builder.name (builder.block.label.getD "entry")), builder)
      else (.ok none, { builder with blocks := builder.blocks.modify builder.current change }) := by
  unfold modifyOpen
  split <;> rfl

/-- What is added to the block in use is refused if control already leaves it. -/
theorem step_adds (builder : Builder) {operation : Operation} (adds : operation.adds)
    (created : operation.created? = none) (entered : operation.entered? = none)
    (hoisted : operation.hoisted? = none) :
    Step builder operation (builder.settle (builder.modifyOpen operation.addTo)).1
      (builder.settle (builder.modifyOpen operation.addTo)).2 := by
  rw [settle_modifyOpen]
  split
  · next terminated =>
      refine ⟨(if_pos ⟨adds, terminated⟩).symm, rfl, ?_, ?_, ?_, ?_, fun _ => rfl⟩
      · simp [Except.toBool, created]
      · simp [entered]
      · simp [entered]
      · simp [hoisted]
  · next isOpen =>
      have answer : builder.answer operation = .ok none := by
        rw [answer, if_neg fun both => isOpen both.2, created, Option.map_none]
      refine ⟨answer.symm, rfl, ?_, ?_, ?_, ?_, nofun⟩
      · simp [Except.toBool, created]
      · simp [entered, layout]
      · simp [entered]
      · simp [hoisted]

theorem layout_switchTo (builder : Builder) (block : BlockId) :
    (builder.switchTo block).layout = builder.layout ++ [block].removeAll builder.layout := by
  have new : [block].removeAll builder.layout = if block ∈ builder.layout then [] else [block] := by
    simp [List.cons_removeAll]
  rw [new]
  change 0 :: (if block ∈ builder.layout then builder.entered else builder.entered ++ [block]) = _
  split
  · rw [List.append_nil, layout]
  · rfl

theorem perform_step (builder : Builder) (operation : Operation) :
    Step builder operation (builder.perform operation).1 (builder.perform operation).2 := by
  cases operation with
  | createBlock label hint =>
      exact step_silent rfl rfl rfl (List.append_nil _).symm rfl (List.append_nil _).symm
  | switchTo block =>
      exact step_silent rfl rfl (List.append_nil _).symm (layout_switchTo builder block) rfl
        (List.append_nil _).symm
  | emit instr => exact step_adds builder rfl rfl rfl rfl
  | terminate terminator =>
      have step : Step builder (.terminate terminator) _ _ := step_adds builder rfl rfl rfl rfl
      have adds : (Operation.terminate terminator).addTo =
          fun block => { block with terminator := some terminator } := by
        funext block
        simp [Operation.addTo, Operation.emitted?, Operation.terminator?]
      rwa [adds] at step
  | hoist instr =>
      exact step_silent rfl rfl (List.append_nil _).symm (List.append_nil _).symm rfl rfl

/-- A builder is where a log says. -/
structure Tells (start : Builder) (log : Log) (builder : Builder) : Prop where
  bare : builder.bare = start.bare
  blocks : builder.blocks = log.titles.mapIdx log.code
  layout : builder.layout = log.entered.eraseDups
  current : builder.current = log.current
  slots : builder.slots = log.hoisted
  /-- Only blocks that were created were in use. -/
  known : ∀ entry ∈ log, entry.block < log.titles.length
  known_current : log.current < log.titles.length
  coherent : log.Coherent start

/-- The blocks that a change to one of them gives. -/
theorem modify_mapIdx {α : Type} (titles : List α) (code : BlockId → α → Block) (id : BlockId)
    (change : Block → Block) : (titles.mapIdx code).modify id change =
      titles.mapIdx fun place title =>
        if id = place then change (code place title) else code place title := by
  refine List.ext_getElem? fun place => ?_
  rw [List.getElem?_modify, List.getElem?_mapIdx, List.getElem?_mapIdx]
  cases titles[place]? <;> rfl

theorem eraseDups_singleton (block : BlockId) : [block].eraseDups = [block] := by
  rw [List.eraseDups_cons, List.filter_nil, List.eraseDups_nil]

theorem eraseDups_removeAll (entered : Option BlockId) (blocks : List BlockId) :
    (entered.toList.removeAll blocks).eraseDups = entered.toList.removeAll blocks.eraseDups := by
  cases entered with
  | none => rfl
  | some block =>
      by_cases there : block ∈ blocks <;> simp [List.cons_removeAll, there, eraseDups_singleton]

namespace Tells

variable {start builder later : Builder} {log : Log} {operation : Operation} {reply : Reply}

section

variable (tells : Tells start log builder)
include tells

theorem isTerminated : builder.isTerminated = (log.terminator log.current).isSome := by
  have lt := tells.known_current
  simp [Builder.isTerminated, Builder.block, tells.blocks, tells.current, Log.code,
    List.getElem?_eq_getElem lt]

theorem answer (operation : Operation) : builder.answer operation = log.answer start operation := by
  have lt := tells.known_current
  have label : builder.block.label = log.titles[log.current]?.bind (·.1) := by
    simp [Builder.block, tells.blocks, tells.current, Log.code, List.getElem?_eq_getElem lt]
  have length : builder.blocks.length = log.titles.length := by
    rw [tells.blocks, List.length_mapIdx]
  rw [Builder.answer, Log.answer, tells.isTerminated, label, length, (fields_of_bare tells.bare).1]

theorem finish : builder.finish = log.function start := by
  obtain ⟨name, returns, params, attributes⟩ := fields_of_bare tells.bare
  unfold Builder.finish Log.function
  rw [name, returns, params, attributes, tells.layout, tells.blocks, modify_mapIdx]
  congr 2
  funext id title
  by_cases first : 0 = id
  · simp [first.symm, tells.slots, Log.code]
  · simp [first, Ne.symm first, Log.code]

/-- What an operation adds to the block in use is what its entry adds. -/
theorem code_of_accepted (step : Step builder operation reply later) (accepted : reply.toBool = true)
    (title : Option String × Option String) :
    Log.code (log ++ [⟨log.current, operation, reply⟩]) log.current title =
      operation.addTo (log.code log.current title) := by
  -- A terminator is accepted only where there is none yet, so the first is also the last.
  have order : (log.terminator log.current).or operation.terminator? =
      operation.terminator?.or (log.terminator log.current) := by
    have notRefused : ¬ (operation.adds ∧ builder.isTerminated) := fun both => by
      simp [step.refused.mpr both] at accepted
    rw [tells.isTerminated] at notRefused
    cases adds : operation.adds with
    | false =>
        have none : operation.terminator? = none := by cases operation <;> first | rfl | contradiction
        rw [none, Option.or_none, Option.none_or]
    | true =>
        have none : log.terminator log.current = none := by simpa [adds] using notRefused
        rw [none, Option.or_none, Option.none_or]
  rw [Log.code_concat, if_pos rfl, if_pos accepted, order]
  rfl

theorem code_of_refused (step : Step builder operation reply later) (refused : reply.toBool = false)
    (id : BlockId) (title : Option String × Option String) :
    Log.code (log ++ [⟨log.current, operation, reply⟩]) id title = log.code id title := by
  rw [Log.code_concat]
  split
  · next here =>
      obtain ⟨terminator, is⟩ := Option.isSome_iff_exists.mp
        (tells.isTerminated.symm.trans (step.refused.mp refused).2)
      rw [← here, is, if_neg (by simp [refused]), List.append_nil, Option.some_or, ← is]
      rfl
  · rfl

theorem blocks_step (step : Step builder operation reply later) :
    later.blocks =
      (Log.titles (log ++ [⟨log.current, operation, reply⟩])).mapIdx
        (Log.code (log ++ [⟨log.current, operation, reply⟩])) := by
  have unused : ∀ entry ∈ (log ++ [⟨log.current, operation, reply⟩] : Log),
      entry.block ≠ log.titles.length := by
    intro entry mem
    rcases List.mem_append.mp mem with old | new
    · exact Nat.ne_of_lt (tells.known entry old)
    · rw [List.mem_singleton.mp new]
      exact Nat.ne_of_lt tells.known_current
  have known : (if reply.toBool then builder.blocks.modify builder.current operation.addTo
      else builder.blocks) =
        log.titles.mapIdx (Log.code (log ++ [⟨log.current, operation, reply⟩])) := by
    cases accepted : reply.toBool with
    | true =>
        rw [if_pos rfl, tells.blocks, tells.current, modify_mapIdx]
        congr 1
        funext id title
        split
        · next here => rw [← here, tells.code_of_accepted step accepted]
        · next other => rw [Log.code_concat, if_neg other]
    | false =>
        rw [if_neg nofun, tells.blocks]
        congr 1
        funext id title
        rw [tells.code_of_refused step accepted]
  rw [step.blocks, known, Log.titles_concat]
  cases operation.created? with
  | none =>
      rw [Option.map_none, Option.toList_none, List.append_nil, Option.toList_none, List.append_nil]
  | some title =>
      rw [Option.map_some, Option.toList_some, Option.toList_some, List.mapIdx_concat,
        Log.code_of_unused _ unused]

theorem known_step (enters : ∀ block ∈ operation.entered?, block < log.titles.length) :
    let noted : Log := log ++ [⟨log.current, operation, reply⟩]
    (∀ entry ∈ noted, entry.block < noted.titles.length) ∧ noted.current < noted.titles.length := by
  have le : log.titles.length ≤ (Log.titles (log ++ [⟨log.current, operation, reply⟩])).length := by
    rw [Log.titles_concat, List.length_append]
    exact Nat.le_add_right _ _
  refine ⟨fun entry mem => Nat.lt_of_lt_of_le ?_ le, Nat.lt_of_lt_of_le ?_ le⟩
  · rcases List.mem_append.mp mem with old | new
    · exact tells.known entry old
    · rw [List.mem_singleton.mp new]
      exact tells.known_current
  · rw [Log.current_concat]
    cases entered : operation.entered? with
    | none => exact tells.known_current
    | some block => exact enters block entered

/-- A builder that a log tells goes on with its log. -/
theorem step (step : Step builder operation reply later)
    (enters : ∀ block ∈ operation.entered?, block < log.titles.length) :
    Tells start (log ++ [⟨log.current, operation, reply⟩]) later where
  bare := step.bare.trans tells.bare
  blocks := tells.blocks_step step
  layout := by
    rw [step.layout, Log.entered_concat, List.eraseDups_append, tells.layout, eraseDups_removeAll]
  current := by rw [step.current, Log.current_concat, tells.current]
  slots := by rw [step.slots, Log.hoisted_concat, tells.slots]
  known := (tells.known_step enters).1
  known_current := (tells.known_step enters).2
  coherent := tells.coherent.concat (step.answer.trans (tells.answer operation))

end

end Tells

/-! ## Sequences of operations -/

/-- A builder before any operation. -/
def fresh (name : String) (returns : IrType) (params : List Param) (attributes : List String) :
    Builder :=
  { name, returns, params, attributes }

theorem tells_fresh (name : String) (returns : IrType) (params : List Param)
    (attributes : List String) :
    Tells (fresh name returns params attributes) [] (fresh name returns params attributes) where
  bare := rfl
  blocks := rfl
  layout := (eraseDups_singleton 0).symm
  current := rfl
  slots := rfl
  known := by simp
  known_current := by simp [Log.current, Log.entered, Log.titles]
  coherent := by simp [Log.Coherent]

theorem entersKnown_cons {known : Nat} {operation : Operation} {rest : List Operation}
    (enters : entersKnown known (operation :: rest)) :
    (∀ block ∈ operation.entered?, block < known) ∧
      entersKnown (known + operation.created?.toList.length) rest := by
  cases operation with
  | createBlock => exact ⟨nofun, enters⟩
  | switchTo block =>
      simp only [entersKnown, Bool.and_eq_true, decide_eq_true_eq] at enters
      simpa [Operation.entered?, Operation.created?] using enters
  | emit | terminate | hoist => exact ⟨nofun, enters⟩

variable {start builder : Builder} {log : Log}

/-- However a builder is used, a log of the operations tells where it is. -/
theorem Tells.record (tells : Tells start log builder) {operations : List Operation}
    (enters : entersKnown log.titles.length operations) :
    Tells start (record log builder operations).1 (record log builder operations).2 := by
  induction operations generalizing log builder with
  | nil => exact tells
  | cons operation rest ih =>
      obtain ⟨here, enters⟩ := entersKnown_cons enters
      refine ih (tells.step (perform_step builder operation) here) ?_
      rwa [Log.titles_concat, List.length_append]

theorem prefix_record (operations : List Operation) :
    log <+: (record log builder operations).1 := by
  induction operations generalizing log builder with
  | nil => exact List.prefix_refl log
  | cons operation rest ih => exact (List.prefix_append log _).trans ih

theorem operations_record (operations : List Operation) :
    (record log builder operations).1.map (·.operation) = log.map (·.operation) ++ operations := by
  induction operations generalizing log builder with
  | nil => exact (List.append_nil _).symm
  | cons operation rest ih =>
      rw [record, ih, List.map_append, List.append_assoc]
      rfl

/-- The first terminator of a block stays. -/
theorem Log.terminator_of_prefix {earlier later : Log} (before : earlier <+: later) {block : BlockId}
    {terminator : Terminator} (there : earlier.terminator block = some terminator) :
    later.terminator block = some terminator := by
  obtain ⟨rest, rfl⟩ := before
  unfold Log.terminator at there ⊢
  rw [List.findSome?_append, there, Option.some_or]

/-- What a log says about a builder. -/
structure Logs (start : Builder) (operations : List Operation) (log : Log) (builder : Builder) :
    Prop where
  operations : log.map (·.operation) = operations
  coherent : log.Coherent start
  current : builder.current = log.current
  known : builder.current < builder.blocks.length
  /-- The function that is built is the one that the log tells. -/
  function : builder.finish = log.function start
  answers : ∀ operation, (builder.perform operation).1 = log.answer start operation
  /-- An operation fails if and only if it adds to a block that has a terminator. -/
  refused : ∀ operation, (builder.perform operation).1.toBool = false ↔
    operation.adds ∧ (log.terminator log.current).isSome
  /-- A failure leaves the builder as it was. -/
  unchanged : ∀ operation, (builder.perform operation).1.toBool = false →
    (builder.perform operation).2 = builder
  /-- A terminator is never replaced. -/
  final : ∀ more block terminator, log.terminator block = some terminator →
    (record log builder more).1.terminator block = some terminator

theorem logs_record {name : String} {returns : IrType} {params : List Param}
    {attributes : List String} {operations : List Operation} (enters : entersKnown 1 operations) :
    let start := fresh name returns params attributes
    Logs start operations (record [] start operations).1 (record [] start operations).2 := by
  intro start
  have tells := (tells_fresh name returns params attributes).record enters
  have step (operation : Operation) := perform_step (record [] start operations).2 operation
  exact {
    operations := operations_record operations
    coherent := tells.coherent
    current := tells.current
    known := by
      rw [tells.current, tells.blocks, List.length_mapIdx]
      exact tells.known_current
    function := tells.finish
    answers := fun operation => (step operation).answer.trans (tells.answer operation)
    refused := fun operation => tells.isTerminated ▸ (step operation).refused
    unchanged := fun operation => (step operation).unchanged
    final := fun more _ _ => Log.terminator_of_prefix (prefix_record more) }

end Builder

end LlvmBackend.Ir
