import LlvmBackend.Value

/-!
# The pool of literals

Literals become constants of the module. Each occurrence of a number or a text has a constant of
its own, numbered through in one row; the two truth values have one constant each, from the first
occurrence of either on.
-/

namespace LlvmBackend

/-- The constants of the literals so far. -/
structure Pool where
  globals : List Ir.Global := []
  /-- How many numbers and texts there were. -/
  count : Nat := 0
  /-- Whether the truth values are there. -/
  hasBools : Bool := false

namespace Pool

/-- The constant of a truth value. -/
def boolGlobal (types : Registry) (value : Bool) : Ir.Global where
  symbol := s!"bool{value.toNat}"
  type := ⟨types.ir Registry.bool⟩
  init := .bool value

/-- The constant of an integer. -/
def intGlobal (types : Registry) (n : Nat) (value : Int64) : Ir.Global where
  symbol := s!"int{n}"
  type := ⟨types.ir Registry.int⟩
  init := .int value

/-- The constant of a floating-point number. -/
def floatGlobal (types : Registry) (n : Nat) (value : Binary64) : Ir.Global where
  symbol := s!"flt{n}"
  type := ⟨types.ir Registry.float⟩
  init := .float value

/-- The constant of the bytes of a text. -/
def bytesGlobal (n : Nat) (value : String) : Ir.Global where
  symbol := s!"str{n}_data"
  type := ⟨s!"[{value.utf8ByteSize} x i8]"⟩
  init := .bytes value.toUTF8.toList

/-- The constant of a text, which refers to its bytes. -/
def stringGlobal (types : Registry) (n : Nat) (value : String) : Ir.Global where
  symbol := s!"str{n}"
  type := ⟨types.ir Registry.string⟩
  init := .header value.utf8ByteSize s!"str{n}_data"

variable (types : Registry) (pool : Pool)

/-- Adds the truth values. -/
def addBools : Pool :=
  { pool with
    globals := pool.globals ++ [boolGlobal types false, boolGlobal types true]
    hasBools := true }

/-- Adds the constants of a numbered literal. -/
def add (globals : List Ir.Global) : Pool :=
  { pool with globals := pool.globals ++ globals, count := pool.count + 1 }

/-- The literal that a constant stands for. -/
def literal (type : TypeId) (global : Ir.Global) : Value := .constant type (.symbol global.symbol)

/-- A truth value. -/
def bool (value : Bool) : Value × Pool :=
  (literal Registry.bool (boolGlobal types value),
    if pool.hasBools then pool else pool.addBools types)

/-- An integer. -/
def int (value : Int64) : Value × Pool :=
  let global := intGlobal types pool.count value
  (literal Registry.int global, pool.add [global])

/-- A floating-point number. -/
def float (value : Binary64) : Value × Pool :=
  let global := floatGlobal types pool.count value
  (literal Registry.float global, pool.add [global])

/-- A text. -/
def string (value : String) : Value × Pool :=
  let global := stringGlobal types pool.count value
  (literal Registry.string global, pool.add [bytesGlobal pool.count value, global])

end Pool

end LlvmBackend
