import ClassFormat.Constant.Kind

/-!
# Failed lookups

Why a constant could not be had from a pool. Nothing in a class file is looked up before it is asked
for, apart from the names of attributes, so these failures reach a reader long after decoding.
-/

set_option autoImplicit false
set_option relaxedAutoImplicit false

namespace ClassFormat

/-- The reason why an index of the constant pool gives no answer. -/
inductive LookupError where
  /-- The index is zero or not below the number of slots. -/
  | outOfRange (index slots : Nat)
  /-- The slot is the one reserved behind a constant of two slots. -/
  | reserved (index : Nat)
  /-- The constant is of another kind than was asked for. -/
  | unexpectedKind (index : Nat) (expected found : Constant.Kind)
  /-- The bytes of the name are not modified UTF-8. -/
  | malformedText (index : Nat)
  deriving DecidableEq, Repr

/-- The text of a failed lookup. -/
def LookupError.message : LookupError → String
  | outOfRange index slots =>
    s!"constant pool index {index} is out of range (pool length {slots})"
  | reserved index =>
    s!"constant pool index {index} is the unusable slot after a wide constant"
  | unexpectedKind index expected found =>
    s!"constant pool index {index} is a {found.name}, expected {expected.name}"
  | malformedText index =>
    s!"constant pool index {index} is not valid modified UTF-8"

end ClassFormat
