import LlvmBackend.Proofs.Pool

/-! # Renumbering literals

The symbol of a numbered literal has one of four forms around its number. Renumbering changes the
number in such a symbol and leaves all other symbols alone.
-/

namespace LlvmBackend.Pool

open Ir

/-- What the symbol of a numbered literal is made of besides the number. -/
inductive Form where
  | int
  | float
  | text
  /-- The bytes of a text. -/
  | bytes
  deriving DecidableEq, Repr

namespace Form

/-- The symbol with a number. -/
def symbol (n : Nat) : Form → String
  | int => s!"int{n}"
  | float => s!"flt{n}"
  | text => s!"str{n}"
  | bytes => s!"str{n}_data"

def all : List Form := [int, float, text, bytes]

theorem mem_all (form : Form) : form ∈ all := by
  cases form <;> simp [all]

theorem mem_symbols (form : Form) (n : Nat) : form.symbol n ∈ symbols n := by
  cases form <;> simp [symbol, symbols]

/-- The forms are told apart by their first letter, and bytes by their length. -/
theorem symbol_injective {n : Nat} {form other : Form} (eq : form.symbol n = other.symbol n) :
    form = other := by
  have letters := congrArg (fun text => text.toList.head?) eq
  cases form <;> cases other <;> simp [symbol, toString, String.toList_append] at letters ⊢
  case text.bytes => exact data_ne n eq.symm
  case bytes.text => exact data_ne n eq

end Form

/-- The number in a symbol. -/
def number (symbol : String) : Nat := Nat.ofDigitChars 10 (digits symbol) 0

/-- The form of a symbol, if it is one of a numbered literal. -/
def form? (symbol : String) : Option Form :=
  Form.all.find? fun form => form.symbol (number symbol) = symbol

/-- The symbol with another number, if it is one of a numbered literal. -/
def renumber (change : Nat → Nat) (symbol : String) : String :=
  match form? symbol with
  | some form => form.symbol (change (number symbol))
  | none => symbol

theorem number_symbol (form : Form) (n : Nat) : number (form.symbol n) = n := by
  rw [number, digits_of_mem (form.mem_symbols n)]
  simp

theorem form?_symbol (form : Form) (n : Nat) : form? (form.symbol n) = some form := by
  unfold form?
  cases found : Form.all.find? fun other => other.symbol (number (form.symbol n)) = form.symbol n with
  | none =>
      have absent := List.find?_eq_none.mp found form form.mem_all
      simp [number_symbol] at absent
  | some other =>
      have same := List.find?_some found
      rw [number_symbol, decide_eq_true_eq] at same
      rw [Form.symbol_injective same]

theorem symbol_of_form? {symbol : String} {form : Form} (found : form? symbol = some form) :
    form.symbol (number symbol) = symbol :=
  of_decide_eq_true (List.find?_some (p := fun form : Form => form.symbol (number symbol) = symbol) found)

/-- The symbols of truth values have no number. -/
theorem form?_truth (types : Registry) (value : Bool) :
    form? (boolGlobal types value).symbol = none := by
  cases found : form? (boolGlobal types value).symbol with
  | none => rfl
  | some form =>
      have mem := form.mem_symbols (number (boolGlobal types value).symbol)
      rw [symbol_of_form? found] at mem
      exact absurd mem (boolGlobal_not_mem types value _)

section Renumber

variable (change : Nat → Nat)

@[simp] theorem renumber_symbol (form : Form) (n : Nat) :
    renumber change (form.symbol n) = form.symbol (change n) := by
  rw [renumber, form?_symbol, number_symbol]

theorem renumber_of_none {symbol : String} (absent : form? symbol = none) :
    renumber change symbol = symbol := by
  rw [renumber, absent]

@[simp] theorem renumber_truth (types : Registry) (value : Bool) :
    renumber change (boolGlobal types value).symbol = (boolGlobal types value).symbol :=
  renumber_of_none change (form?_truth types value)

@[simp] theorem form?_renumber (symbol : String) : form? (renumber change symbol) = form? symbol := by
  cases found : form? symbol with
  | none => rw [renumber_of_none change found, found]
  | some form => rw [← symbol_of_form? found, renumber_symbol, form?_symbol]

theorem renumber_renumber (again : Nat → Nat) (symbol : String) :
    renumber again (renumber change symbol) = renumber (again ∘ change) symbol := by
  cases found : form? symbol with
  | none => rw [renumber_of_none change found, renumber_of_none _ found, renumber_of_none _ found]
  | some form => rw [← symbol_of_form? found, renumber_symbol, renumber_symbol, renumber_symbol]; rfl

variable {change}

theorem renumber_injective (injective : Function.Injective change) :
    Function.Injective (renumber change) := by
  intro first second eq
  have forms := congrArg form? eq
  rw [form?_renumber, form?_renumber] at forms
  cases found : form? first with
  | none => rwa [renumber_of_none change found, renumber_of_none change (forms ▸ found)] at eq
  | some form =>
      have found' : form? second = some form := forms ▸ found
      rw [← symbol_of_form? found, ← symbol_of_form? found', renumber_symbol, renumber_symbol] at eq
      have numbers := congrArg number eq
      rw [number_symbol, number_symbol] at numbers
      rw [← symbol_of_form? found, ← symbol_of_form? found', injective numbers]

end Renumber

end LlvmBackend.Pool
