import ClassFormat.Decimal.Binary

/-!
# Shortest decimals

A floating-point number is written with the fewest digits that read back as the same number, and
with those digits as near to it as they get; of two that are equally near, the larger. The search
goes from one digit to more. With a given number of digits it looks at the two decimals next to the
number, for if any decimal of that many digits reads back, one of these two does.
-/

set_option autoImplicit false
set_option relaxedAutoImplicit false

namespace ClassFormat.Decimal

/-- The number `digits` times ten to the power `exponent`. -/
structure Numeral where
  digits : Nat
  exponent : Int
  deriving DecidableEq, Repr

/-- How many decimal digits a number has; zero has one. -/
def digitCount (number : Nat) : Nat :=
  (Nat.toDigits 10 number).length

namespace Rounding

/-- The least power of ten above the value, as its exponent. The value is not zero. -/
def decimalExponent (rounding : Rounding) : Int :=
  if rounding.denominator ≤ rounding.value then
    digitCount (rounding.value / rounding.denominator)
  else
    1 - digitCount ((rounding.denominator - 1) / rounding.value)

/-- Whether `count / parts` units of the denominator round to the value. -/
def admits (rounding : Rounding) (count parts : Nat) : Bool :=
  if rounding.closed then
    rounding.low * parts ≤ count && count ≤ rounding.high * parts
  else
    rounding.low * parts < count && count < rounding.high * parts

/-- The multiple of ten to the power `exponent` that reads back as the value and is nearest to it.
-/
def onGrid? (rounding : Rounding) (exponent : Int) : Option Nat :=
  let parts := Nat.pow 10 (-exponent).toNat
  let step := rounding.denominator * Nat.pow 10 exponent.toNat
  let value := rounding.value * parts
  let below := value / step
  let above := below + 1
  match rounding.admits (below * step) parts, rounding.admits (above * step) parts with
  | true, true => some (if 2 * value < (below + above) * step then below else above)
  | true, false => some below
  | false, true => some above
  | false, false => none

/-- The most digits that are tried. No number of 64 bits needs more. -/
def mostDigits : Nat := 17

/-- The shortest decimal that reads back as the value. The value is not zero. -/
def shortest (rounding : Rounding) : Numeral :=
  let top := rounding.decimalExponent
  let candidate? (count : Nat) : Option Numeral :=
    let exponent := top - (count + 1 : Nat)
    (rounding.onGrid? exponent).map fun digits ↦ ⟨digits, exponent⟩
  ((List.range mostDigits).findSome? candidate?).getD ⟨0, 0⟩

end Rounding

/-- The fraction digits without the zeros at their end. -/
def withoutLastZeros (digits : List Char) : List Char :=
  (digits.reverse.dropWhile (· = '0')).reverse

/-- A numeral in positional notation: never an exponent, and a point only before a fraction. -/
def Numeral.positional (numeral : Numeral) : List Char :=
  let digits := Nat.toDigits 10 numeral.digits
  if 0 ≤ numeral.exponent then
    digits ++ List.replicate numeral.exponent.toNat '0'
  else
    let places := (-numeral.exponent).toNat
    let padded := List.replicate (places + 1 - digits.length) '0' ++ digits
    let whole := padded.take (padded.length - places)
    match withoutLastZeros (padded.drop (padded.length - places)) with
    | [] => whole
    | fraction => whole ++ '.' :: fraction

/-- The text of a finite magnitude. -/
def Magnitude.text (magnitude : Magnitude) : String :=
  if magnitude.significand = 0 then "0"
  else String.ofList magnitude.rounding.shortest.positional

/-- The text of the floating-point number with the given bits. Zero keeps its sign. -/
def BinaryFormat.text (format : BinaryFormat) (bits : Nat) : String :=
  let sign := if format.isNegative bits then "-" else ""
  match format.value bits with
  | .notANumber => "NaN"
  | .infinite => sign ++ "inf"
  | .finite magnitude => sign ++ magnitude.text

end ClassFormat.Decimal
