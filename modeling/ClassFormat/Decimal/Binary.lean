/-!
# Binary floating-point words

What the bits of a floating-point number stand for, and which real numbers round to it. All
arithmetic is exact: a finite number is an integer times a power of two, and the bounds of the
numbers that round to it are fractions over a common denominator.
-/

set_option autoImplicit false
set_option relaxedAutoImplicit false

namespace ClassFormat.Decimal

/-- A layout of floating-point words: a sign bit, an exponent and a fraction. -/
structure BinaryFormat where
  exponentBits : Nat
  fractionBits : Nat
  deriving DecidableEq, Repr

namespace BinaryFormat

/-- Words of 32 bits. -/
def single : BinaryFormat := ⟨8, 23⟩

/-- Words of 64 bits. -/
def double : BinaryFormat := ⟨11, 52⟩

/-- The fraction field of a word. -/
def fraction (format : BinaryFormat) (bits : Nat) : Nat :=
  bits % Nat.pow 2 format.fractionBits

/-- The exponent field of a word. -/
def exponentField (format : BinaryFormat) (bits : Nat) : Nat :=
  bits / Nat.pow 2 format.fractionBits % Nat.pow 2 format.exponentBits

/-- The sign of a word. -/
def isNegative (format : BinaryFormat) (bits : Nat) : Bool :=
  bits / Nat.pow 2 (format.fractionBits + format.exponentBits) % 2 = 1

/-- The exponent of the smallest numbers: two to this power is the distance between them. -/
def leastExponent (format : BinaryFormat) : Int :=
  2 - Nat.pow 2 (format.exponentBits - 1) - format.fractionBits

end BinaryFormat

/-- The magnitude of a finite number: `significand` times two to the power `exponent`. -/
structure Magnitude where
  significand : Nat
  exponent : Int
  /-- Whether the next smaller magnitude is only half as far away as the next larger one. -/
  closerBelow : Bool
  deriving DecidableEq, Repr

/-- What the bits of a word stand for, apart from the sign. -/
inductive BinaryValue where
  | notANumber
  | infinite
  | finite (magnitude : Magnitude)
  deriving DecidableEq, Repr

/-- What the bits of a word stand for. -/
def BinaryFormat.value (format : BinaryFormat) (bits : Nat) : BinaryValue :=
  let fraction := format.fraction bits
  let field := format.exponentField bits
  if field = Nat.pow 2 format.exponentBits - 1 then
    if fraction = 0 then .infinite else .notANumber
  else if field = 0 then
    .finite ⟨fraction, format.leastExponent, false⟩
  else
    .finite ⟨Nat.pow 2 format.fractionBits + fraction,
      format.leastExponent + (field - 1 : Nat), fraction = 0 && 1 < field⟩

/-- A magnitude and the bounds of the numbers that round to it, as fractions of one denominator. -/
structure Rounding where
  low : Nat
  value : Nat
  high : Nat
  denominator : Nat
  /-- Whether the bounds themselves round to the magnitude. -/
  closed : Bool
  deriving DecidableEq, Repr

/-- The numbers that round to a magnitude. They reach half way to its neighbours, and what lies
exactly half way goes to the one of the two that is even. -/
def Magnitude.rounding (magnitude : Magnitude) : Rounding :=
  let quarters := 4 * magnitude.significand
  let factor := Nat.pow 2 (magnitude.exponent - 2).toNat
  { low := (if magnitude.closerBelow then quarters - 1 else quarters - 2) * factor
    value := quarters * factor
    high := (quarters + 2) * factor
    denominator := Nat.pow 2 (2 - magnitude.exponent).toNat
    closed := magnitude.significand % 2 = 0 }

end ClassFormat.Decimal
