import LlvmBackend.Binary64

/-!
# Decimal text of floating-point numbers

The shortest decimal that reads back as a number, and the two ways it is written: positional
where the number is neither large nor small and scientific elsewhere, or positional everywhere.
-/

namespace LlvmBackend

/-- The decimal `digits * 10 ^ exponent`. -/
structure Decimal where
  digits : Nat
  exponent : Int
  deriving DecidableEq, Repr

namespace Decimal

/-- The decimal as a quotient of natural numbers. -/
def ratio (d : Decimal) : Nat × Nat :=
  if d.exponent < 0 then (d.digits, Nat.pow 10 (-d.exponent).toNat)
  else (d.digits * Nat.pow 10 d.exponent.toNat, 1)

/-- The number nearest to a decimal. -/
def nearest (negative : Bool) (d : Decimal) : Binary64 :=
  Binary64.ofRatio negative d.ratio.1 d.ratio.2

/-- The digits as text. -/
def digitText (d : Decimal) : List Char := Nat.toDigits 10 d.digits

/-- The power of ten of the leading digit. -/
def leading (d : Decimal) : Int := d.exponent + (d.digitText.length - 1 : Nat)

/-- Drops zeros at the end of the digits, at most `count` of them. -/
def dropZeros (d : Decimal) : (count : Nat) → Decimal
  | 0 => d
  | count + 1 =>
    if d.digits ≠ 0 ∧ d.digits % 10 = 0 then dropZeros ⟨d.digits / 10, d.exponent + 1⟩ count
    else d

end Decimal

namespace Binary64

/-- A power of ten by which the smallest positive number exceeds one. -/
def smallestTenth : Nat := 324

/-- The power of ten of the leading digit of a positive finite number. -/
def leadingPower (x : Binary64) : Int :=
  ((Nat.toDigits 10 (x.steps * Nat.pow 10 smallestTenth / stepsOfOne)).length : Int)
    - 1 - smallestTenth

/-- The greatest multiple of `10 ^ exponent` not above the magnitude, counted in that power, and
    what is left of the magnitude compared with half of it. -/
def gridBelow (x : Binary64) (exponent : Int) : Nat × Ordering :=
  let num := if exponent < 0 then x.steps * Nat.pow 10 (-exponent).toNat else x.steps
  let den := if exponent < 0 then stepsOfOne else stepsOfOne * Nat.pow 10 exponent.toNat
  (num / den, compare (2 * (num % den)) den)

/-- The decimal with `count` digits that reads back as the number, if there is one. Only the two
    neighbours of the number among these decimals can; of two hits the nearer is taken, and of
    two equally near ones the even. -/
def decimalOf? (x : Binary64) (count : Nat) : Option Decimal :=
  let exponent := x.leadingPower - (count - 1 : Nat)
  let (below, half) := x.gridBelow exponent
  let lower : Decimal := ⟨below, exponent⟩
  let upper : Decimal := ⟨below + 1, exponent⟩
  let readsBack (d : Decimal) : Bool := (d.nearest x.isNegative) = x
  match readsBack lower, readsBack upper with
  | true, false => some lower
  | false, true => some upper
  | false, false => none
  | true, true =>
    match half with
    | .lt => some lower
    | .gt => some upper
    | .eq => some (if below % 2 = 0 then lower else upper)

/-- The shortest decimal that reads back as a positive or negative finite number; seventeen digits
    are always enough. -/
def shortest (x : Binary64) : Decimal :=
  let found := (List.range' 1 17).findSome? x.decimalOf?
  (found.getD ⟨(x.gridBelow (x.leadingPower - 16)).1, x.leadingPower - 16⟩).dropZeros 17

end Binary64

/-- How a decimal is laid out: the powers of ten of the leading digit at which it is written
    positionally; at all others it is written in scientific form. -/
structure DecimalLayout where
  positional : Int → Bool

namespace DecimalLayout

/-- JSON writes numbers from `0.00001` up to, and without, `10 ^ 16` positionally. -/
def json : DecimalLayout := ⟨fun leading => -5 ≤ leading && leading < 16⟩

/-- Messages about TOML documents write every number positionally. -/
def plain : DecimalLayout := ⟨fun _ => true⟩

/-- Digits with a point, and a zero where nothing would follow the point. -/
def positionalText (digits : List Char) (leading : Int) : List Char :=
  if leading < 0 then
    ['0', '.'] ++ List.replicate (-leading - 1).toNat '0' ++ digits
  else
    let whole := leading.toNat + 1
    let fraction := digits.drop whole
    digits.take whole ++ List.replicate (whole - digits.length) '0' ++ ['.'] ++
      (if fraction.isEmpty then ['0'] else fraction)

/-- One digit, the others after a point if there are any, and a signed power of ten. -/
def scientificText (digits : List Char) (leading : Int) : List Char :=
  let fraction := digits.drop 1
  digits.take 1 ++ (if fraction.isEmpty then [] else '.' :: fraction) ++
    ['e', if leading < 0 then '-' else '+'] ++ Nat.toDigits 10 leading.natAbs

/-- The text of a finite number. -/
def finiteText (layout : DecimalLayout) (x : Binary64) : List Char :=
  let sign := if x.isNegative then ['-'] else []
  if x.isZero then sign ++ ['0', '.', '0']
  else
    let decimal := x.shortest
    let write := if layout.positional decimal.leading then positionalText else scientificText
    sign ++ write decimal.digitText decimal.leading

/-- The text of a number. -/
def text (layout : DecimalLayout) (x : Binary64) : String :=
  if x.isNaN then "NaN"
  else if x.isFinite then String.ofList (layout.finiteText x)
  else if x.isNegative then "-inf" else "inf"

end DecimalLayout

end LlvmBackend
