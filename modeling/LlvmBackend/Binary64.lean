/-!
# Binary floating point

The double-precision format by its 64 bits: one sign bit, eleven bits of exponent, 52 bits of
fraction. A finite number is `significand * 2 ^ step / 2 ^ 1074`, so every finite number is a
natural number of steps of the smallest positive one. All arithmetic here is exact arithmetic on
natural numbers followed by one rounding, `ofRatio`.
-/

namespace LlvmBackend

/-- A double-precision number, told apart by its bits. -/
structure Binary64 where
  bits : UInt64
  deriving DecidableEq, Repr

namespace Binary64

/-- The bits of positive infinity; all smaller bit patterns are finite and not negative. -/
def infinityBits : Nat := 0x7FF0000000000000

/-- The weight of the sign bit. -/
def signBit : Nat := Nat.pow 2 63

/-- The weight of the lowest bit of the exponent, which is also that of a leading bit in front of
    the fraction. -/
def leadingBit : Nat := Nat.pow 2 52

/-- The bits without the sign. -/
def magnitudeBits (x : Binary64) : Nat := x.bits.toNat % signBit

def isNegative (x : Binary64) : Bool := signBit ≤ x.bits.toNat

def isFinite (x : Binary64) : Bool := x.magnitudeBits < infinityBits

def isNaN (x : Binary64) : Bool := infinityBits < x.magnitudeBits

def isZero (x : Binary64) : Bool := x.magnitudeBits = 0

/-- Glues a sign to the bits of a magnitude. -/
def ofMagnitude (negative : Bool) (magnitude : Nat) : Binary64 :=
  ⟨UInt64.ofNat (if negative then signBit + magnitude else magnitude)⟩

def zero : Binary64 := ⟨0⟩

/-- What is not a number, as operations give it. -/
def notANumber (negative : Bool) : Binary64 := ofMagnitude negative 0x7FF8000000000000

def neg (x : Binary64) : Binary64 := ofMagnitude (!x.isNegative) x.magnitudeBits

/-- The magnitude of a finite number, counted in steps of the smallest positive number: the
    exponent field is `step + 1` for a number with a leading bit, and 0 for one without. -/
def steps (x : Binary64) : Nat :=
  let field := x.magnitudeBits / leadingBit
  let fraction := x.magnitudeBits % leadingBit
  if field = 0 then fraction else (leadingBit + fraction) * Nat.pow 2 (field - 1)

/-- How many steps of the smallest positive number make one. -/
def stepsOfOne : Nat := Nat.pow 2 1074

/-- The bits of the magnitude nearest to `num / den`, a tie going to the even neighbour;
    magnitudes past the largest finite one are infinity. With `exponent` chosen so that the
    quotient has 53 bits where it can, the fraction's leading bit carries into the exponent field
    by itself. -/
def roundedMagnitude (num den : Nat) : Nat :=
  let scaled := num * stepsOfOne
  let exponent := (scaled / den).log2 - 52
  let unit := den * Nat.pow 2 exponent
  let below := scaled / unit
  let rest := scaled % unit
  let rounded := if unit < 2 * rest ∨ (unit = 2 * rest ∧ below % 2 = 1) then below + 1 else below
  min (exponent * leadingBit + rounded) infinityBits

/-- The number nearest to `num / den` with the given sign. -/
def ofRatio (negative : Bool) (num den : Nat) : Binary64 :=
  ofMagnitude negative (roundedMagnitude num den)

/-- The number nearest to a natural number. -/
def ofNat (n : Nat) : Binary64 := ofRatio false n 1

/-- The number nearest to `10 ^ n`. -/
def powerOfTen (n : Nat) : Binary64 := ofNat (Nat.pow 10 n)

/-- The rounded product of two finite numbers. -/
def mul (x y : Binary64) : Binary64 :=
  ofRatio (x.isNegative != y.isNegative) (x.steps * y.steps) (stepsOfOne * stepsOfOne)

/-- The rounded quotient of two finite numbers, the second not zero. -/
def div (x y : Binary64) : Binary64 :=
  ofRatio (x.isNegative != y.isNegative) x.steps y.steps

/-- Equality of values as an order on all numbers sees it: the two zeros are equal, and so are
    all numbers that are not a number. -/
def same (x y : Binary64) : Bool :=
  x = y || (x.isZero && y.isZero) || (x.isNaN && y.isNaN)

/-- The bits as sixteen upper-case hexadecimal digits. -/
def hex (x : Binary64) : String :=
  let digits := (Nat.toDigits 16 x.bits.toNat).map Char.toUpper
  String.ofList (List.replicate (16 - digits.length) '0' ++ digits)

end Binary64

end LlvmBackend
