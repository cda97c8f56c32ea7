import LlvmBackend.Proofs.Scopes

/-! # Scopes as a stack

Frames that are left stay in the store, and the frame in use is found by its place. All the same,
whatever is done with nested scopes, they answer as a stack of maps does that is cut back for good.
Main statement: `Scoping.inStore_answers_as_stack`.
-/

namespace LlvmBackend

variable {α : Type}

/-! ## Stacks of maps -/

/-- Maps from names, each inside those below it. There is always one. -/
structure ScopeStack (α : Type) where
  top : String → Option α
  below : List (String → Option α)

namespace ScopeStack

def empty : ScopeStack α := ⟨fun _ => none, []⟩

variable (stack : ScopeStack α)

/-- The maps from the innermost outwards. -/
def maps : List (String → Option α) := stack.top :: stack.below

def push : ScopeStack α := ⟨fun _ => none, stack.maps⟩

/-- Drops the innermost map unless it is the last. -/
def pop : ScopeStack α :=
  match stack.below with
  | [] => stack
  | next :: rest => ⟨next, rest⟩

def define (name : String) (value : α) : ScopeStack α :=
  { stack with top := fun asked => if asked = name then some value else stack.top asked }

def lookupLocal (name : String) : Option α := stack.top name

/-- What the innermost of the maps with the name says. -/
def lookup (name : String) : Option α := stack.maps.findSome? fun map => map name

end ScopeStack

/-! ## What is done with scopes -/

/-- What can be done with nested scopes. -/
inductive Scoping.Step (α : Type) where
  | push
  | pop
  | define (name : String) (value : α)
  | lookup (name : String)
  | lookupLocal (name : String)

/-- A way to hold nested scopes. -/
structure Scoping (α σ : Type) where
  start : σ
  push : σ → σ
  pop : σ → σ
  define : σ → String → α → σ
  lookup : σ → String → Option α
  lookupLocal : σ → String → Option α

namespace Scoping

variable {σ : Type} (scoping : Scoping α σ)

def step (state : σ) : Step α → σ
  | .push => scoping.push state
  | .pop => scoping.pop state
  | .define name value => scoping.define state name value
  | .lookup _ | .lookupLocal _ => state

/-- Look-ups are answered. -/
def answer (state : σ) : Step α → List (Option α)
  | .push | .pop | .define _ _ => []
  | .lookup name => [scoping.lookup state name]
  | .lookupLocal name => [scoping.lookupLocal state name]

def run (state : σ) (steps : List (Step α)) : σ := steps.foldl scoping.step state

/-- All answers, in their order. -/
def answers (state : σ) : List (Step α) → List (Option α)
  | [] => []
  | step :: rest => scoping.answer state step ++ answers (scoping.step state step) rest

/-- Scopes as frames in a store. -/
def inStore : Scoping α (Scopes α) where
  start := .empty
  push := Scopes.push
  pop := Scopes.pop
  define := Scopes.define
  lookup := Scopes.lookup
  lookupLocal := Scopes.lookupLocal

/-- Scopes as a stack of maps. -/
def onStack : Scoping α (ScopeStack α) where
  start := .empty
  push := ScopeStack.push
  pop := ScopeStack.pop
  define := ScopeStack.define
  lookup := ScopeStack.lookup
  lookupLocal := ScopeStack.lookupLocal

/-- Steps that leave every scope that they open, and no other. -/
inductive Balanced : List (Step α) → Prop where
  | nil : Balanced []
  | plain {first : Step α} :
      first ≠ .push →
      first ≠ .pop →
      Balanced rest →
      Balanced (first :: rest)
  | nested {scope rest : List (Step α)} :
      Balanced scope →
      Balanced rest →
      Balanced (.push :: scope ++ .pop :: rest)

end Scoping

/-! ## The way outwards -/

/-- A look-up that goes outwards from a place over a number of frames. A way without end is no
    `Climb`. -/
inductive Climb (frames : List (Frame α)) (name : String) : Nat → Nat → Option α → Prop where
  | found {frame : Frame α} :
      frames[place]? = some frame →
      frame.names.get? name = some value →
      Climb frames name place 1 (some value)
  | outermost {frame : Frame α} :
      frames[place]? = some frame →
      frame.names.get? name = none →
      frame.parent = none →
      Climb frames name place 1 none
  | outwards {frame : Frame α} :
      frames[place]? = some frame →
      frame.names.get? name = none →
      frame.parent = some parent →
      Climb frames name parent n result →
      Climb frames name place (n + 1) result

/-- The maps that can be seen from a place, from the frame there outwards. -/
inductive Sees (frames : List (Frame α)) : Nat → List (String → Option α) → Prop where
  | outermost {frame : Frame α} :
      frames[place]? = some frame →
      frame.parent = none →
      Sees frames place [frame.names.get?]
  | inside {frame : Frame α} :
      frames[place]? = some frame →
      frame.parent = some parent →
      Sees frames parent maps →
      Sees frames place (frame.names.get? :: maps)

/-- A look-up ends within the maps that can be seen. -/
theorem Sees.climb {frames : List (Frame α)} {place : Nat} {maps : List (String → Option α)}
    (sees : Sees frames place maps) (name : String) :
    ∃ n ≤ maps.length, Climb frames name place n (maps.findSome? fun map => map name) := by
  induction sees with
  | @outermost place frame there top =>
      cases found : frame.names.get? name with
      | some value => exact ⟨1, Nat.le_refl 1, by simpa [found] using .found there found⟩
      | none => exact ⟨1, Nat.le_refl 1, by simpa [found] using .outermost there found top⟩
  | @inside place parent maps frame there inside _ ih =>
      cases found : frame.names.get? name with
      | some value =>
          exact ⟨1, Nat.le_add_left 1 _, by simpa [found] using .found there found⟩
      | none =>
          obtain ⟨n, le, climb⟩ := ih
          refine ⟨n + 1, Nat.succ_le_succ le, ?_⟩
          simpa [found] using .outwards there found inside climb

/-- What can be seen from a place is in the frame there and older ones only. -/
theorem Sees.congr {frames later : List (Frame α)} {place : Nat} {maps : List (String → Option α)}
    (sees : Sees frames place maps) (older : ParentsOlder frames)
    (same : ∀ before ≤ place, later[before]? = frames[before]?) : Sees later place maps := by
  induction sees with
  | outermost there top => exact .outermost ((same _ (Nat.le_refl _)).trans there) top
  | @inside place parent maps frame there inside _ ih =>
      have lt : parent < place := older place frame there parent (by simp [inside])
      exact .inside ((same place (Nat.le_refl place)).trans there) inside
        (ih fun before le => same before (Nat.le_trans le (Nat.le_of_lt lt)))

namespace Scopes

variable {scopes : Scopes α} {stack : ScopeStack α}

theorem lookupFrom_of_climb {name : String} {place n : Nat} {result : Option α}
    (climb : Climb scopes.frames name place n result) : scopes.lookupFrom name place = result := by
  induction climb with
  | found there found => rw [lookupFrom_eq, there, Option.bind_some, found, Option.some_or]
  | outermost there absent top =>
      rw [lookupFrom_eq, there, Option.bind_some, absent, Option.none_or, top, Option.bind_none]
  | outwards there absent inside _ ih =>
      rw [lookupFrom_eq, there, Option.bind_some, absent, Option.none_or, inside, Option.bind_some, ih]

/-- The maps of a stack are those that can be seen from the frame in use. -/
def Shows (scopes : Scopes α) (stack : ScopeStack α) : Prop :=
  Sees scopes.frames scopes.current stack.maps

theorem shows_iff : scopes.Shows stack ↔ stack.top = scopes.frame.names.get? ∧
    (scopes.frame.parent = none ∧ stack.below = [] ∨
      ∃ parent, scopes.frame.parent = some parent ∧ Sees scopes.frames parent stack.below) := by
  have here := scopes.frame_eq
  obtain ⟨top, below⟩ := stack
  constructor
  · rintro (⟨there, outermost⟩ | ⟨there, inside, sees⟩)
    · cases there.symm.trans here
      exact ⟨rfl, .inl ⟨outermost, rfl⟩⟩
    · cases there.symm.trans here
      exact ⟨rfl, .inr ⟨_, inside, sees⟩⟩
  · rintro ⟨rfl, ⟨outermost, rfl⟩ | ⟨parent, inside, sees⟩⟩
    · exact .outermost here outermost
    · exact .inside here inside sees

theorem shows_empty : (empty : Scopes α).Shows .empty := shows_iff.mpr ⟨rfl, .inl ⟨rfl, rfl⟩⟩

theorem pop_of_outermost (outermost : scopes.frame.parent = none) : scopes.pop = scopes := by
  unfold pop
  split
  · rfl
  · next inside => rw [outermost] at inside; contradiction

theorem pop_of_inside {parent : Nat} (inside : scopes.frame.parent = some parent) :
    scopes.pop.frames = scopes.frames ∧ scopes.pop.current = parent := by
  unfold pop
  split
  · next outermost => rw [outermost] at inside; contradiction
  · next eq => exact ⟨rfl, Option.some.inj (eq.symm.trans inside)⟩

namespace Shows

variable (shows : scopes.Shows stack)
include shows

theorem climb (name : String) : ∃ n ≤ stack.maps.length,
    Climb scopes.frames name scopes.current n (stack.lookup name) :=
  Sees.climb shows name

theorem lookup (name : String) : scopes.lookup name = stack.lookup name := by
  obtain ⟨n, _, climb⟩ := shows.climb name
  exact lookupFrom_of_climb climb

theorem lookupLocal (name : String) : scopes.lookupLocal name = stack.lookupLocal name :=
  congrFun (shows_iff.mp shows).1.symm name

theorem push : scopes.push.Shows stack.push := by
  refine shows_iff.mpr ⟨?_, .inr ⟨scopes.current, ?_, ?_⟩⟩
  · rw [frame_push]
    rfl
  · rw [frame_push]
  · refine Sees.congr shows scopes.older fun place le => ?_
    have : place < scopes.frames.length := Nat.lt_of_le_of_lt le scopes.current_lt
    simp [Scopes.push, List.getElem?_append_left this]

theorem pop : scopes.pop.Shows stack.pop := by
  obtain ⟨_, ⟨outermost, last⟩ | ⟨parent, inside, sees⟩⟩ := shows_iff.mp shows
  · have kept : stack.pop = stack := by rw [ScopeStack.pop, last]
    rwa [pop_of_outermost outermost, kept]
  · obtain ⟨frames, current⟩ := pop_of_inside inside
    have dropped : stack.pop.maps = stack.below := by
      cases below : stack.below with
      | nil => rw [below] at sees; nomatch sees
      | cons next rest => rw [ScopeStack.pop, below]; rfl
    rwa [Shows, frames, current, dropped]

theorem define (name : String) (value : α) :
    (scopes.define name value).Shows (stack.define name value) := by
  obtain ⟨top, below⟩ := shows_iff.mp shows
  refine shows_iff.mpr ⟨?_, ?_⟩
  · funext asked
    rw [frame_define, NameMap.get?_insert, ← top]
    rfl
  · rw [frame_define]
    refine below.imp_right fun ⟨parent, inside, sees⟩ =>
      ⟨parent, inside, sees.congr scopes.older fun place le => ?_⟩
    have lt := scopes.older _ _ scopes.frame_eq parent inside
    have : scopes.current ≠ place := Nat.ne_of_gt (Nat.lt_of_le_of_lt le lt)
    simp [Scopes.define, this]

end Shows

end Scopes

/-! ## Answers -/

namespace Scoping

variable {scopes : Scopes α} {stack : ScopeStack α}

/-- Whatever is done, the stack stays the one that can be seen. -/
theorem shows_step (shows : scopes.Shows stack) (step : Step α) :
    (inStore.step scopes step).Shows (onStack.step stack step) := by
  cases step with
  | push => exact shows.push
  | pop => exact shows.pop
  | define name value => exact shows.define name value
  | lookup | lookupLocal => exact shows

theorem shows_run (shows : scopes.Shows stack) (steps : List (Step α)) :
    (inStore.run scopes steps).Shows (onStack.run stack steps) := by
  induction steps generalizing scopes stack with
  | nil => exact shows
  | cons step rest ih => exact ih (shows_step shows step)

theorem answer_eq (shows : scopes.Shows stack) (step : Step α) :
    inStore.answer scopes step = onStack.answer stack step := by
  cases step with
  | push | pop | define => rfl
  | lookup name => exact congrArg ([·]) (shows.lookup name)
  | lookupLocal name => exact congrArg ([·]) (shows.lookupLocal name)

theorem answers_eq (shows : scopes.Shows stack) (steps : List (Step α)) :
    inStore.answers scopes steps = onStack.answers stack steps := by
  induction steps generalizing scopes stack with
  | nil => rfl
  | cons step rest ih => rw [answers, answers, answer_eq shows, ih (shows_step shows step)]

/-! ## Scopes that are left -/

/-- A stack is what it was once the maps above it are gone. -/
theorem pop_eq_of_below {left : ScopeStack α} (below : left.below = stack.maps) :
    left.pop = stack := by
  rw [ScopeStack.pop, below]
  rfl

theorem below_run {steps : List (Step α)} (balanced : Balanced steps) (stack : ScopeStack α) :
    (onStack.run stack steps).below = stack.below := by
  induction balanced generalizing stack with
  | nil => rfl
  | @plain rest first notPush notPop _ ih =>
      rw [run, List.foldl_cons, ← run, ih]
      cases first with
      | push => exact absurd rfl notPush
      | pop => exact absurd rfl notPop
      | define | lookup | lookupLocal => rfl
  | @nested scope rest _ _ ihScope ih =>
      have left : onStack.step (onStack.run stack.push scope) .pop = stack :=
        pop_eq_of_below (ihScope stack.push)
      rw [run, List.foldl_append, List.foldl_cons, List.foldl_cons]
      exact left.symm ▸ ih stack

/-- A scope that was opened and left leaves the stack as it was. -/
theorem run_scope {scope : List (Step α)} (balanced : Balanced scope) (stack : ScopeStack α) :
    onStack.run stack (.push :: scope ++ [.pop]) = stack := by
  rw [run, List.foldl_append, List.foldl_cons]
  exact pop_eq_of_below (below_run balanced stack.push)

/-- Whatever is done with scopes, frames in a store answer as a stack of maps. Each look-up ends
    after at most as many frames as there are open scopes. And once a scope is left, all answers are
    as if it had never been opened. -/
theorem inStore_answers_as_stack (earlier : List (Step α)) :
    let reached := inStore.run inStore.start earlier
    inStore.answers inStore.start earlier = onStack.answers onStack.start earlier ∧
      (∀ name, ∃ n ≤ (onStack.run onStack.start earlier).maps.length,
        Climb reached.frames name reached.current n (reached.lookup name)) ∧
      ∀ scope, Balanced scope → ∀ later,
        inStore.answers (inStore.run reached (.push :: scope ++ [.pop])) later =
          inStore.answers reached later := by
  have start : (inStore.start : Scopes α).Shows onStack.start := Scopes.shows_empty
  have shows := shows_run start earlier
  refine ⟨answers_eq start earlier, fun name => ?_, fun scope balanced later => ?_⟩
  · rw [shows.lookup name]
    exact shows.climb name
  · rw [answers_eq shows, answers_eq (shows_run shows _), run_scope balanced]

/-- A scope that binds a name again, and in which another scope is opened and left. -/
def shadowing : List (Step Nat) :=
  [.define "x" 2, .push, .define "y" 3, .lookup "x", .pop, .lookupLocal "x", .lookup "y"]

theorem shadowing_balanced : Balanced shadowing := by
  have scope : Balanced ([.define "y" 3, .lookup "x"] : List (Step Nat)) :=
    .plain nofun nofun (.plain nofun nofun .nil)
  exact .plain nofun nofun (.nested scope (.plain nofun nofun (.plain nofun nofun .nil)))

theorem shadowing_answers :
    Balanced shadowing ∧
      inStore.answers inStore.start (.define "x" 1 :: .push :: shadowing) =
        [some 2, some 2, none] ∧
      inStore.answers
          (inStore.run (inStore.run inStore.start [.define "x" 1]) (.push :: shadowing ++ [.pop]))
          [.lookup "x", .lookup "y"] =
        inStore.answers (inStore.run inStore.start [.define "x" 1]) [.lookup "x", .lookup "y"] :=
  ⟨shadowing_balanced, (inStore_answers_as_stack (.define "x" 1 :: .push :: shadowing)).1,
    (inStore_answers_as_stack [.define "x" 1]).2.2 shadowing shadowing_balanced
      [.lookup "x", .lookup "y"]⟩

end Scoping

end LlvmBackend
