/-!
# Hexadecimal digits

Lowercase hexadecimal numerals, padded with zeros on the left to a least number of digits. They show
opcodes, magic numbers and the code points of escaped characters.
-/

set_option autoImplicit false
set_option relaxedAutoImplicit false

namespace ClassFormat.Text

/-- The digits of `value` in base sixteen, with zeros in front up to `width` digits. -/
def hexDigits (width value : Nat) : List Char :=
  let digits := Nat.toDigits 16 value
  List.replicate (width - digits.length) '0' ++ digits

/-- The numeral of `value` with at least `width` digits. -/
def hexadecimal (width value : Nat) : String :=
  String.ofList (hexDigits width value)

end ClassFormat.Text
