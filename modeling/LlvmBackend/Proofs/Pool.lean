import LlvmBackend.Pool
import LlvmBackend.Proofs.Supply

/-! # Symbols of literals

No two constants of a pool have one symbol: the number in a symbol tells the literals apart, and a
text differs from its bytes.
-/

namespace LlvmBackend.Pool

open Ir

/-! ## Symbols -/

/-- The symbols that the literal with a number can have. -/
def symbols (n : Nat) : List String := [s!"int{n}", s!"flt{n}", s!"str{n}", s!"str{n}_data"]

/-- The digits in a symbol. -/
def digits (symbol : String) : List Char := symbol.toList.filter Char.isDigit

theorem filter_repr (n : Nat) : n.repr.toList.filter Char.isDigit = n.repr.toList := by
  refine List.filter_eq_self.mpr fun c mem => ?_
  rw [Nat.toList_repr] at mem
  exact Nat.isDigit_of_mem_toDigits (by decide) (by decide) mem

/-- The digits in the symbol of a literal are its number. -/
theorem digits_of_mem {n : Nat} {symbol : String} (mem : symbol ∈ symbols n) :
    digits symbol = n.repr.toList := by
  simp only [symbols, List.mem_cons, List.not_mem_nil, or_false] at mem
  rcases mem with rfl | rfl | rfl | rfl
  all_goals
    simp only [digits, toString, String.toList_append, List.filter_append, filter_repr]
    simp [Char.isDigit]

/-- The symbols of two literals differ. -/
theorem number_unique {m n : Nat} {symbol : String} (first : symbol ∈ symbols m)
    (second : symbol ∈ symbols n) : m = n := by
  refine Supply.repr_injective (String.toList_injective ?_)
  rw [← digits_of_mem first, ← digits_of_mem second]

theorem data_ne (n : Nat) : s!"str{n}_data" ≠ s!"str{n}" := by
  intro eq
  have eq := congrArg (fun text => text.toList.length) eq
  simp [toString, String.toList_append] at eq

/-- The symbol of a truth value is not the symbol of another literal. -/
theorem boolGlobal_not_mem (types : Registry) (value : Bool) (n : Nat) :
    (boolGlobal types value).symbol ∉ symbols n := by
  intro mem
  have start : (boolGlobal types value).symbol.toList.head? = some 'b' := by
    simp [boolGlobal, toString, String.toList_append]
  simp only [symbols, List.mem_cons, List.not_mem_nil, or_false] at mem
  rcases mem with eq | eq | eq | eq
  all_goals
    rw [eq] at start
    simp [toString, String.toList_append] at start

/-! ## What a pool holds -/

/-- The constants of a pool have different symbols: the truth values, once they are there, and those
    of the literals so far. -/
structure Regular (types : Registry) (pool : Pool) : Prop where
  nodup : (pool.globals.map Global.symbol).Nodup
  bools : pool.hasBools → ∀ value, boolGlobal types value ∈ pool.globals
  symbols : ∀ global ∈ pool.globals,
    (pool.hasBools ∧ ∃ value, global.symbol = (boolGlobal types value).symbol) ∨
      ∃ n < pool.count, global.symbol ∈ symbols n

variable {types : Registry} {pool : Pool}

theorem regular_empty (types : Registry) : Regular types {} where
  nodup := by simp
  bools := by simp
  symbols := by simp

/-- A symbol of the next literal is new. -/
theorem Regular.new (regular : Regular types pool) {symbol : String}
    (mem : symbol ∈ Pool.symbols pool.count) : symbol ∉ pool.globals.map Global.symbol := by
  intro taken
  obtain ⟨global, there, rfl⟩ := List.mem_map.mp taken
  rcases regular.symbols global there with ⟨_, value, eq⟩ | ⟨n, lt, mem'⟩
  · exact boolGlobal_not_mem types value _ (eq ▸ mem)
  · exact absurd (number_unique mem' mem) (Nat.ne_of_lt lt)

theorem Regular.add (regular : Regular types pool) {globals : List Global}
    (nodup : (globals.map Global.symbol).Nodup)
    (named : ∀ global ∈ globals, global.symbol ∈ Pool.symbols pool.count) :
    Regular types (pool.add globals) where
  nodup := by
    rw [Pool.add, List.map_append]
    refine List.nodup_append.mpr ⟨regular.nodup, nodup, ?_⟩
    intro symbol old symbol' new eq
    obtain ⟨global, mem, rfl⟩ := List.mem_map.mp new
    exact regular.new (named global mem) (eq ▸ old)
  bools := by
    intro has value
    exact List.mem_append_left _ (regular.bools has value)
  symbols := by
    intro global mem
    rcases List.mem_append.mp mem with old | new
    · refine (regular.symbols global old).imp_right ?_
      rintro ⟨n, lt, mem⟩
      exact ⟨n, Nat.lt_succ_of_lt lt, mem⟩
    · exact .inr ⟨pool.count, Nat.lt_succ_self _, named global new⟩

theorem Regular.addBools (regular : Regular types pool) (absent : pool.hasBools = false) :
    Regular types (pool.addBools types) where
  nodup := by
    have apart : ["bool0", "bool1"].Nodup := by decide
    rw [Pool.addBools, List.map_append]
    refine List.nodup_append.mpr ⟨regular.nodup, apart, ?_⟩
    intro symbol old symbol' new eq
    obtain ⟨global, mem, rfl⟩ := List.mem_map.mp old
    have truth : ∃ value, symbol' = (boolGlobal types value).symbol := by
      simp only [List.map_cons, List.map_nil, List.mem_cons, List.not_mem_nil, or_false] at new
      rcases new with rfl | rfl
      · exact ⟨false, rfl⟩
      · exact ⟨true, rfl⟩
    obtain ⟨value, rfl⟩ := truth
    rcases regular.symbols global mem with ⟨has, _⟩ | ⟨n, _, mem⟩
    · simp [absent] at has
    · exact boolGlobal_not_mem types value n (eq ▸ mem)
  bools := by
    intro _ value
    cases value <;> simp [Pool.addBools]
  symbols := by
    intro global mem
    rcases List.mem_append.mp mem with old | new
    · rcases regular.symbols global old with ⟨has, _⟩ | numbered
      · simp [absent] at has
      · exact .inr numbered
    · simp only [List.mem_cons, List.not_mem_nil, or_false] at new
      rcases new with rfl | rfl
      · exact .inl ⟨rfl, false, rfl⟩
      · exact .inl ⟨rfl, true, rfl⟩

/-! ## Adding literals -/

/-- A literal that is added to a pool: the pool keeps its constants, and the literal stands for one
    that is there. -/
structure Added (types : Registry) (pool : Pool) (added : Value × Pool) : Prop where
  regular : Regular types pool → Regular types added.2
  kept : pool.globals ⊆ added.2.globals
  there : Regular types pool → ∃ type, ∃ global ∈ added.2.globals,
    global.type = ⟨types.ir type⟩ ∧ added.1 = literal type global

theorem added_bool (types : Registry) (pool : Pool) (value : Bool) :
    Added types pool (pool.bool types value) := by
  cases has : pool.hasBools with
  | true =>
      simp only [Pool.bool, has]
      exact ⟨id, List.Subset.refl _, fun regular =>
        ⟨_, _, regular.bools has value, rfl, rfl⟩⟩
  | false =>
      simp only [Pool.bool, has]
      exact ⟨fun regular => regular.addBools has, List.subset_append_left _ _, fun regular =>
        ⟨_, _, (regular.addBools has).bools rfl value, rfl, rfl⟩⟩

theorem added_int (types : Registry) (pool : Pool) (value : Int64) :
    Added types pool (pool.int types value) where
  regular := fun regular => regular.add (by simp) (by simp [intGlobal, Pool.symbols])
  kept := List.subset_append_left _ _
  there := fun _ => ⟨_, intGlobal types pool.count value, by simp [Pool.int, Pool.add], rfl, rfl⟩

theorem added_float (types : Registry) (pool : Pool) (value : Binary64) :
    Added types pool (pool.float types value) where
  regular := fun regular => regular.add (by simp) (by simp [floatGlobal, Pool.symbols])
  kept := List.subset_append_left _ _
  there := fun _ =>
    ⟨_, floatGlobal types pool.count value, by simp [Pool.float, Pool.add], rfl, rfl⟩

theorem added_string (types : Registry) (pool : Pool) (value : String) :
    Added types pool (pool.string types value) where
  regular := fun regular => regular.add
    (by simpa [bytesGlobal, stringGlobal] using data_ne pool.count)
    (by simp [bytesGlobal, stringGlobal, Pool.symbols])
  kept := List.subset_append_left _ _
  there := fun _ =>
    ⟨_, stringGlobal types pool.count value, by simp [Pool.string, Pool.add], rfl, rfl⟩

end LlvmBackend.Pool
