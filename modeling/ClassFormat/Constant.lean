import ClassFormat.Constant.Kind
import ClassFormat.Decoder

/-!
# Constants

The constants of a class file and how they are read. Indices into the pool are kept as they stand:
nothing is looked up here, so a constant may refer to nothing or to a constant of the wrong kind.
-/

set_option autoImplicit false
set_option relaxedAutoImplicit false

namespace ClassFormat

/-- A constant. Numbers are kept as the bits that stand in the file. -/
inductive Constant where
  /-- A text as modified UTF-8. -/
  | utf8 (bytes : List UInt8)
  | integer (bits : UInt32)
  | float (bits : UInt32)
  | long (bits : UInt64)
  | double (bits : UInt64)
  | classRef (nameIndex : UInt16)
  | string (textIndex : UInt16)
  | fieldRef (classIndex nameAndTypeIndex : UInt16)
  | methodRef (classIndex nameAndTypeIndex : UInt16)
  | interfaceMethodRef (classIndex nameAndTypeIndex : UInt16)
  | nameAndType (nameIndex descriptorIndex : UInt16)
  | methodHandle (reference : UInt8) (index : UInt16)
  | methodType (descriptorIndex : UInt16)
  /-- `bootstrapIndex` counts in the bootstrap methods of the class, not in the pool. -/
  | dynamic (bootstrapIndex nameAndTypeIndex : UInt16)
  | invokeDynamic (bootstrapIndex nameAndTypeIndex : UInt16)
  | moduleName (nameIndex : UInt16)
  | packageName (nameIndex : UInt16)
  deriving DecidableEq, Repr

namespace Constant

/-- The kind of a constant. -/
def kind : Constant → Kind
  | utf8 .. => .utf8
  | integer .. => .integer
  | float .. => .float
  | long .. => .long
  | double .. => .double
  | classRef .. => .classRef
  | string .. => .string
  | fieldRef .. => .fieldRef
  | methodRef .. => .methodRef
  | interfaceMethodRef .. => .interfaceMethodRef
  | nameAndType .. => .nameAndType
  | methodHandle .. => .methodHandle
  | methodType .. => .methodType
  | dynamic .. => .dynamic
  | invokeDynamic .. => .invokeDynamic
  | moduleName .. => .moduleName
  | packageName .. => .packageName

/-- Whether the constant takes two slots of the pool. -/
def isWide : Constant → Bool
  | long .. | double .. => true
  | _ => false

/-! What a constant of one kind stands for. Constants of other kinds have no answer. -/

/-- The number of a constant of four bytes. -/
def int32? : Constant → Option Int32
  | integer bits => some bits.toInt32
  | _ => none

/-- The floating-point number of a constant of four bytes. -/
def float32Bits? : Constant → Option UInt32
  | float bits => some bits
  | _ => none

/-- The number of a constant of eight bytes. -/
def int64? : Constant → Option Int64
  | long bits => some bits.toInt64
  | _ => none

/-- The floating-point number of a constant of eight bytes. -/
def float64Bits? : Constant → Option UInt64
  | double bits => some bits
  | _ => none

/-- What the handle of a method or field does, for the nine reference numbers that are defined. -/
def referenceName? (reference : UInt8) : Option String :=
  match reference.toNat with
  | 1 => some "REF_getField"
  | 2 => some "REF_getStatic"
  | 3 => some "REF_putField"
  | 4 => some "REF_putStatic"
  | 5 => some "REF_invokeVirtual"
  | 6 => some "REF_invokeStatic"
  | 7 => some "REF_invokeSpecial"
  | 8 => some "REF_newInvokeSpecial"
  | 9 => some "REF_invokeInterface"
  | _ => none

/-- What a handle does. -/
def handleName? : Constant → Option String
  | methodHandle reference _ => referenceName? reference
  | _ => none

/-- The number of eight bytes whose halves are given. -/
def joined (high low : UInt32) : UInt64 :=
  UInt64.ofNat (high.toNat * 0x100000000 + low.toNat)

/-- The more significant half of a number of eight bytes. -/
def highHalf (bits : UInt64) : UInt32 :=
  UInt32.ofNat (bits.toNat / 0x100000000)

/-- The less significant half of a number of eight bytes. -/
def lowHalf (bits : UInt64) : UInt32 :=
  UInt32.ofNat (bits.toNat % 0x100000000)

/-- Reads what follows the tag. -/
def decodePayload : Kind → Decoder Constant
  | .utf8 => do
    let length ← Decoder.u2
    return utf8 (← Decoder.take length.toNat)
  | .integer => do return integer (← Decoder.u4)
  | .float => do return float (← Decoder.u4)
  | .long => do
    let high ← Decoder.u4
    let low ← Decoder.u4
    return long (joined high low)
  | .double => do
    let high ← Decoder.u4
    let low ← Decoder.u4
    return double (joined high low)
  | .classRef => do return classRef (← Decoder.u2)
  | .string => do return string (← Decoder.u2)
  | .fieldRef => do return fieldRef (← Decoder.u2) (← Decoder.u2)
  | .methodRef => do return methodRef (← Decoder.u2) (← Decoder.u2)
  | .interfaceMethodRef => do return interfaceMethodRef (← Decoder.u2) (← Decoder.u2)
  | .nameAndType => do return nameAndType (← Decoder.u2) (← Decoder.u2)
  | .methodHandle => do return methodHandle (← Decoder.u1) (← Decoder.u2)
  | .methodType => do return methodType (← Decoder.u2)
  | .dynamic => do return dynamic (← Decoder.u2) (← Decoder.u2)
  | .invokeDynamic => do return invokeDynamic (← Decoder.u2) (← Decoder.u2)
  | .moduleName => do return moduleName (← Decoder.u2)
  | .packageName => do return packageName (← Decoder.u2)

/-- Reads a constant: its tag and what follows it. -/
def decode : Decoder Constant := do
  let start ← Decoder.offset
  let tag ← Decoder.u1
  match Kind.ofTag? tag with
  | some kind => decodePayload kind
  | none => Decoder.failAt start (.unknownConstantTag tag)

end Constant

end ClassFormat
