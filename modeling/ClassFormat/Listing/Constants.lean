import ClassFormat.Decimal.Shortest
import ClassFormat.Listing.Line

/-!
# Listing a constant pool

One line for every constant, with its index, its kind and what it stands for. A constant that refers
to others is shown with their text.
-/

set_option autoImplicit false
set_option relaxedAutoImplicit false

namespace ClassFormat.Listing

variable [Text.Decoding]

/-- A reference to a member: the class, a point and the name and type. -/
def memberPieces (pool : ConstantPool) (classIndex nameAndTypeIndex : UInt16) : Line :=
  [.className pool classIndex, .text ".", .nameAndType pool nameAndTypeIndex]

/-- A reference that a bootstrap method resolves. -/
def dynamicPieces (pool : ConstantPool) (bootstrapIndex nameAndTypeIndex : UInt16) : Line :=
  [.text s!"#{bootstrapIndex}:", .nameAndType pool nameAndTypeIndex]

/-- What the constant at an index stands for. A number has to be asked for by its kind. -/
def constantPieces? (pool : ConstantPool) (index : UInt16) (constant : Constant) : Option Line :=
  match constant with
  | .utf8 _ => some [.textAt pool index]
  | .integer _ => do
    return [.text (toString (← constant.int32?).toInt)]
  | .float _ => do
    return [.text (Decimal.BinaryFormat.single.text (← constant.float32Bits?).toNat)]
  | .long _ => do
    return [.text (toString (← constant.int64?).toInt)]
  | .double _ => do
    return [.text (Decimal.BinaryFormat.double.text (← constant.float64Bits?).toNat)]
  | .classRef _ => some [.className pool index]
  | .string textIndex => some [.textAt pool textIndex]
  | .fieldRef classIndex nameAndTypeIndex => some (memberPieces pool classIndex nameAndTypeIndex)
  | .methodRef classIndex nameAndTypeIndex => some (memberPieces pool classIndex nameAndTypeIndex)
  | .interfaceMethodRef classIndex nameAndTypeIndex =>
    some (memberPieces pool classIndex nameAndTypeIndex)
  | .nameAndType .. => some [.nameAndType pool index]
  | .methodHandle reference referenceIndex =>
    match constant.handleName? with
    | some name => some [.text s!"{name} #{referenceIndex}"]
    | none => some [.text s!"{reference} #{referenceIndex}"]
  | .methodType descriptorIndex => some [.textAt pool descriptorIndex]
  | .dynamic bootstrapIndex nameAndTypeIndex =>
    some (dynamicPieces pool bootstrapIndex nameAndTypeIndex)
  | .invokeDynamic bootstrapIndex nameAndTypeIndex =>
    some (dynamicPieces pool bootstrapIndex nameAndTypeIndex)
  | .moduleName nameIndex => some [.textAt pool nameIndex]
  | .packageName nameIndex => some [.textAt pool nameIndex]

/-- The line of the slot at an index. A reserved slot has none. -/
def slotLine? (pool : ConstantPool) (index : Nat) (slot : Option Constant) : Option Line := do
  let constant ← slot
  let pieces ← constantPieces? pool (UInt16.ofNat index) constant
  return .text s!"  #{index} = {constant.kind.name} " :: pieces

/-- The lines of a pool. -/
def constantLines (pool : ConstantPool) : List Line :=
  Line.ofText "Constant pool:" :: pool.slots.toList.zipIdx.filterMap fun (slot, index) ↦
    slotLine? pool index slot

end ClassFormat.Listing
