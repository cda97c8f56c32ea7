import LlvmBackend.Proofs.Supply
import Mathlib.Data.List.Induction
import Mathlib.Data.Nat.Init

/-! # Histories of supplies

Names of storage are reserved and asked for in any order. Whatever happened before, the search for a
free name ends, at the first free one of the names that it tries. Main statement:
`Supply.uniqueName_after`.
-/

namespace LlvmBackend.Supply

/-! ## The search for a name -/

/-- The search from a candidate on, with the number that is tried next: a candidate that is taken is
    followed by the name with this number. A search without end is no `Search`. -/
inductive Search (used : List String) (base : String) : String → Nat → String → Prop where
  | free : candidate ∉ used → Search used base candidate next candidate
  | taken :
      candidate ∈ used →
      Search used base (numbered base next) (next + 1) name →
      Search used base candidate next name

variable {used : List String} {base name : String}

/-- A search ends at one name only. -/
theorem Search.unique {candidate other : String} {next : Nat}
    (first : Search used base candidate next name) (second : Search used base candidate next other) :
    name = other := by
  induction first with
  | free free =>
      cases second with
      | free => rfl
      | taken taken => exact absurd taken free
  | taken taken _ ih =>
      cases second with
      | free free => exact absurd taken free
      | taken _ rest => exact ih rest

theorem Search.iff {candidate : String} {next : Nat} (search : Search used base candidate next name)
    (other : String) : Search used base candidate next other ↔ other = name :=
  ⟨fun also => also.unique search, fun eq => eq ▸ search⟩

/-- A search among numbered names goes on up to the first that is free. -/
theorem search_numbered {start n : Nat} (le : start ≤ n) (free : numbered base n ∉ used)
    (below : ∀ m, start ≤ m → m < n → numbered base m ∈ used) :
    Search used base (numbered base start) (start + 1) (numbered base n) := by
  induction le using Nat.decreasingInduction with
  | self => exact .free free
  | of_succ start lt ih =>
      exact .taken (below start (Nat.le_refl start) lt)
        (ih fun m le => below m (Nat.le_of_succ_le le))

/-- What a name becomes while other names are taken. -/
structure Gives (used : List String) (base name : String) : Prop where
  /-- The search ends, with this name. -/
  search : ∀ other, Search used base base 1 other ↔ other = name
  new : name ∉ used
  plain : base ∉ used → name = base
  /-- A name that is taken gets the least number, from one on, that makes it free. -/
  least : base ∈ used → ∃ n, 1 ≤ n ∧ n ≤ used.length ∧ name = numbered base n ∧
    ∀ m, 1 ≤ m → m < n → numbered base m ∈ used

theorem gives_of_not_mem (free : base ∉ used) : Gives used base base where
  search := Search.iff (.free free)
  new := free
  plain _ := rfl
  least there := absurd there free

theorem gives_numbered {n : Nat} (there : base ∈ used) (pos : 1 ≤ n) (le : n ≤ used.length)
    (free : numbered base n ∉ used) (below : ∀ m, 1 ≤ m → m < n → numbered base m ∈ used) :
    Gives used base (numbered base n) where
  search := Search.iff (.taken there (search_numbered pos free below))
  new := free
  plain absent := absurd there absent
  least _ := ⟨n, pos, le, rfl, below⟩

theorem gives_freeName (supply : Supply) (base : String) :
    Gives supply.used base (supply.freeName base) := by
  by_cases there : base ∈ supply.used
  · obtain ⟨n, pos, le, eq, free, below⟩ := freeName_of_mem there
    rw [eq]
    exact gives_numbered there pos le free below
  · rw [freeName, if_neg there]
    exact gives_of_not_mem there

/-! ## Histories -/

/-- What is asked of a supply of names. -/
inductive Request where
  | reserve (name : String)
  | unique (base : String)

/-- The name that a request takes, and the supply behind it. -/
def serve (supply : Supply) : Request → String × Supply
  | .reserve name => (name, supply.reserve name)
  | .unique base => supply.uniqueName base

/-- What there is at the start and behind requests: the names that were taken, the last one first,
    and the supply. -/
def history (requests : List Request) : List String × Supply :=
  requests.foldl (fun (taken, supply) request =>
    let (name, later) := supply.serve request
    (name :: taken, later)) ([], {})

/-- The names that were reserved or given. -/
def taken (requests : List Request) : List String := (history requests).1

def after (requests : List Request) : Supply := (history requests).2

theorem used_after (requests : List Request) : (after requests).used = taken requests := by
  induction requests using List.reverseRecOn with
  | nil => rfl
  | append_singleton requests request ih =>
      rw [after, taken, history, List.foldl_append]
      cases request with
      | reserve name => exact congrArg (name :: ·) ih
      | unique base => exact congrArg ((after requests).freeName base :: ·) ih

/-- After any requests a name is given that was neither reserved nor given before, the name itself or
    with the least number, and this name alone is taken from then on. -/
theorem uniqueName_after (earlier : List Request) (base : String) :
    Gives (taken earlier) base ((after earlier).uniqueName base).1 ∧
      ((after earlier).uniqueName base).2 =
        (after earlier).reserve ((after earlier).uniqueName base).1 ∧
      (after earlier).used = taken earlier :=
  ⟨used_after earlier ▸ gives_freeName (after earlier) base, rfl, used_after earlier⟩

example : taken [.reserve "x", .unique "x.1", .unique "x", .unique "x.1", .unique "x"] =
    ["x.3", "x.1.1", "x.2", "x.1", "x"] := by decide +kernel

end LlvmBackend.Supply
