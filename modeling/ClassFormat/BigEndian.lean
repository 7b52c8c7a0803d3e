/-!
# Big-endian numbers

The bytes of a number, the most significant first, and the number that bytes stand for.
-/

set_option autoImplicit false
set_option relaxedAutoImplicit false

namespace ClassFormat.BigEndian

/-- The number whose digits in base 256 are the bytes. -/
def toNat (bytes : List UInt8) : Nat :=
  bytes.foldl (fun value byte ↦ value * 256 + byte.toNat) 0

/-- The last `width` digits in base 256 of a number. -/
def ofNat : (width value : Nat) → List UInt8
  | 0, _ => []
  | width + 1, value => ofNat width (value / 256) ++ [UInt8.ofNat value]

@[simp] theorem length_ofNat (width value : Nat) : (ofNat width value).length = width := by
  induction width generalizing value with
  | zero => rfl
  | succ width ih => simp [ofNat, ih]

end ClassFormat.BigEndian
