import ClassFormat.Constant
import ClassFormat.Text.Decoding

/-!
# The constant pool

A pool is an array of slots. The first slot and the slot behind every constant of two slots are
reserved: they hold nothing and no lookup answers from them. Lookups check the kind of what they
find and resolve at most the names that they are asked for. Texts are read by a decoding.
-/

set_option autoImplicit false
set_option relaxedAutoImplicit false

namespace ClassFormat

/-- The constants of a class file by their indices. A reserved slot holds `none`. -/
structure ConstantPool where
  slots : Array (Option Constant)
  deriving DecidableEq, Repr

namespace ConstantPool

/-- The number of slots, reserved ones included. -/
def size (pool : ConstantPool) : Nat :=
  pool.slots.size

/-- Whether the pool has no slot that could hold a constant. -/
def isEmpty (pool : ConstantPool) : Bool :=
  pool.size ≤ 1

/-! ### Building a pool -/

/-- Appends a constant, with the reserved slot behind it if it takes two. -/
def appendConstant (slots : Array (Option Constant)) (constant : Constant) :
    Array (Option Constant) :=
  if constant.isWide then (slots.push (some constant)).push none else slots.push (some constant)

/-- The pool over the given entries in order, where `none` leaves a further slot reserved. -/
def ofEntries (entries : List (Option Constant)) : ConstantPool where
  slots := entries.foldl (fun slots entry ↦
    match entry with
    | some constant => appendConstant slots constant
    | none => slots.push none) #[none]

/-- The pool of the given constants in order. -/
def ofConstants (constants : List Constant) : ConstantPool :=
  ofEntries (constants.map some)

/-- The constants of a pool in order. -/
def constants (pool : ConstantPool) : List Constant :=
  pool.slots.toList.filterMap id

/-! ### Reading a pool -/

/-- Reads constants until `left` more slots are filled. A constant of two slots needs both of them.
-/
def decodeOnto : (left : Nat) → (slots : Array (Option Constant)) →
    Decoder (Array (Option Constant))
  | 0, slots => return slots
  | left + 1, slots => do
    let start ← Decoder.offset
    let constant ← Constant.decode
    if constant.isWide then
      match left with
      | 0 => Decoder.failAt start (.poolOverflow slots.size (slots.size + 1))
      | left + 1 => decodeOnto left ((slots.push (some constant)).push none)
    else decodeOnto left (slots.push (some constant))

/-- Reads a pool: the number of its slots and, from the second slot on, its constants. -/
def decode : Decoder ConstantPool := do
  let count ← Decoder.u2
  let slots ← decodeOnto (count.toNat - 1) #[none]
  Decoder.record (.pool slots.size)
  return ⟨slots⟩

/-! ### Lookups -/

/-- What the slot at an index holds. -/
def slot (pool : ConstantPool) (index : Nat) : Except LookupError (Option Constant) :=
  match pool.slots[index]? with
  | some slot => .ok slot
  | none => .error (.outOfRange index pool.size)

/-- The constant at an index. -/
def constant (pool : ConstantPool) (index : Nat) : Except LookupError Constant :=
  if index = 0 then .error (.outOfRange index pool.size)
  else do
    match ← pool.slot index with
    | some constant => return constant
    | none => throw (.reserved index)

/-- The bytes of the text at an index. -/
def utf8 (pool : ConstantPool) (index : Nat) : Except LookupError (List UInt8) := do
  match ← pool.constant index with
  | .utf8 bytes => return bytes
  | other => throw (.unexpectedKind index .utf8 other.kind)

section Texts

variable [Text.Decoding]

/-- The text at an index. -/
def text (pool : ConstantPool) (index : Nat) : Except LookupError String := do
  match Text.Decoding.decode (← pool.utf8 index) with
  | some text => return text
  | none => throw (.malformedText index)

/-- The name of the class at an index. -/
def className (pool : ConstantPool) (index : Nat) : Except LookupError String := do
  match ← pool.constant index with
  | .classRef nameIndex => pool.text nameIndex.toNat
  | other => throw (.unexpectedKind index .classRef other.kind)

/-- The name and the descriptor at an index; the name is looked up first. -/
def nameAndType (pool : ConstantPool) (index : Nat) : Except LookupError (String × String) := do
  match ← pool.constant index with
  | .nameAndType nameIndex descriptorIndex =>
    let name ← pool.text nameIndex.toNat
    let descriptor ← pool.text descriptorIndex.toNat
    return (name, descriptor)
  | other => throw (.unexpectedKind index .nameAndType other.kind)

end Texts

end ConstantPool

end ClassFormat
