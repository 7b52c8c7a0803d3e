import ClassFormat.Decoder

/-!
# Stack map frames

What a verifier may assume about the local variables and the operand stack at some place of the
code. The first byte of a frame selects how much of the previous frame is kept.
-/

set_option autoImplicit false
set_option relaxedAutoImplicit false

namespace ClassFormat

open Decoder

/-- What is known of a local variable or of an operand. -/
inductive VerificationType where
  | top
  | integer
  | float
  | double
  | long
  | null
  | uninitializedThis
  /-- An object of the class at an index of the constant pool. -/
  | object (classIndex : UInt16)
  /-- What the instruction at an address of the code has created and nothing has initialised. -/
  | uninitialized (address : UInt16)
  deriving DecidableEq, Repr

/-- Reads a verification type. -/
def VerificationType.decode : Decoder VerificationType := do
  let start ← offset
  let tag ← u1
  match tag.toNat with
  | 0 => return .top
  | 1 => return .integer
  | 2 => return .float
  | 3 => return .double
  | 4 => return .long
  | 5 => return .null
  | 6 => return .uninitializedThis
  | 7 => return .object (← u2)
  | 8 => return .uninitialized (← u2)
  | _ => failAt start (.unknownVerificationType tag)

/-- A frame; `delta` is its distance from the previous one. -/
inductive StackMapFrame where
  /-- The local variables stay and the stack is empty. -/
  | same (delta : UInt16)
  /-- The local variables stay and the stack has one item. -/
  | sameWithItem (delta : UInt16) (item : VerificationType)
  /-- The same with a distance of two bytes. -/
  | sameWithItemExtended (delta : UInt16) (item : VerificationType)
  /-- The last local variables are gone and the stack is empty. -/
  | chop (delta : UInt16) (absent : UInt8)
  /-- The local variables stay and the stack is empty, with a distance of two bytes. -/
  | sameExtended (delta : UInt16)
  /-- There are further local variables and the stack is empty. -/
  | append (delta : UInt16) (locals : List VerificationType)
  /-- Nothing is kept. -/
  | full (delta : UInt16) (locals stack : List VerificationType)
  deriving DecidableEq, Repr

/-- The distance of a frame from the previous one. -/
def StackMapFrame.delta : StackMapFrame → UInt16
  | same delta | sameWithItem delta _ | sameWithItemExtended delta _ | chop delta _
  | sameExtended delta | append delta _ | full delta _ _ => delta

/-- Reads a frame. -/
def StackMapFrame.decode : Decoder StackMapFrame := do
  let start ← offset
  let tag ← u1
  if tag < 64 then
    return .same tag.toUInt16
  else if tag < 128 then
    return .sameWithItem (tag - 64).toUInt16 (← VerificationType.decode)
  else if tag < 247 then
    failAt start (.unknownFrameType tag)
  else if tag = 247 then
    return .sameWithItemExtended (← u2) (← VerificationType.decode)
  else if tag < 251 then
    return .chop (← u2) (251 - tag)
  else if tag = 251 then
    return .sameExtended (← u2)
  else if tag < 255 then
    return .append (← u2) (← times (tag - 251).toNat VerificationType.decode)
  else
    return .full (← u2) (← counted VerificationType.decode) (← counted VerificationType.decode)

end ClassFormat
