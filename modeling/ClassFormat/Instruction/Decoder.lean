import ClassFormat.Decoder
import ClassFormat.Instruction

/-!
# Reading instructions

The code of a method is read from its first byte to its declared length, one instruction behind the
other. The length of an instruction may depend on its address, since the operands of a switch begin
at an address that four divides.
-/

set_option autoImplicit false
set_option relaxedAutoImplicit false

namespace ClassFormat

/-- How many bytes stand between an address and the next one that four divides. -/
def switchPadding (address : Nat) : Nat :=
  (4 - address % 4) % 4

/-- How many branches a switch over the keys from `low` to `high` has. -/
def tableLength (low high : Int32) : Nat :=
  (high.toInt - low.toInt + 1).toNat

namespace Operands

open Decoder

/-- The target of a branch of the instruction at `address`, over a distance of two bytes. -/
def decodeTarget (address : Nat) : Decoder Int := do
  return address + (← s2).toInt

/-- The target of a branch of the instruction at `address`, over a distance of four bytes. -/
def decodeWideTarget (address : Nat) : Decoder Int := do
  return address + (← s4).toInt

/-- The element type of an array. -/
def decodeArrayType : Decoder ArrayType := do
  let start ← offset
  let code ← u1
  match ArrayType.ofCode? code with
  | some element => return element
  | none => failAt start (.unknownArrayType code)

/-- An operation with wider operands. -/
def decodeWide : Decoder WideOperation := do
  let opcode ← u1
  let index ← u2
  if opcode = Opcode.incrementByte then return .increment index (← s2)
  else return .onVariable opcode index

/-- Reads the operands of the instruction at `address`; they begin behind its opcode. -/
def decode (address : Nat) : (form : Form) → Decoder (Operands form)
  | .plain => return .plain
  | .signedByte => do return .signedByte (← s1)
  | .signedShort => do return .signedShort (← s2)
  | .byteIndex => do return .byteIndex (← u1)
  | .index => do return .index (← u2)
  | .increment => do return .increment (← u1) (← s1)
  | .branch => do return .branch (← decodeTarget address)
  | .wideBranch => do return .wideBranch (← decodeWideTarget address)
  | .interfaceCall => do
    let index ← u2
    let count ← u1
    skip 1
    return .interfaceCall index count
  | .dynamicCall => do
    let index ← u2
    skip 2
    return .dynamicCall index
  | .arrayType => do return .arrayType (← decodeArrayType)
  | .multiArray => do return .multiArray (← u2) (← u1)
  | .tableSwitch => do
    skip (switchPadding (address + 1))
    let fallback ← decodeWideTarget address
    let low ← s4
    let high ← s4
    let targets ← times (tableLength low high) (decodeWideTarget address)
    return .tableSwitch fallback low high targets
  | .lookupSwitch => do
    skip (switchPadding (address + 1))
    let fallback ← decodeWideTarget address
    let count ← u4
    let pairs ← times count.toNat do return (← s4, ← decodeWideTarget address)
    return .lookupSwitch fallback pairs
  | .wide => do return .wide (← decodeWide)

end Operands

open Decoder in
/-- Reads an opcode. -/
def Opcode.decode : Decoder Opcode := do
  let start ← offset
  let byte ← u1
  match Opcode.ofByte? byte with
  | some opcode => return opcode
  | none => failAt start (.unknownOpcode byte)

namespace InstructionList

open Decoder

/-- Reads the instructions from `address` on, onto those already read, which are held in reverse.
The code ends where the declared length ends, and so must its last instruction. -/
def decodeOnto (length : UInt32) (address : Nat) (done : List Instruction) :
    Decoder InstructionList := do
  if address < length.toNat then
    let opcode ← Opcode.decode
    let (operands, size) ← measured (Operands.decode address opcode.form)
    decodeOnto length (address + 1 + size) (⟨UInt32.ofNat address, opcode, operands⟩ :: done)
  else if address = length.toNat then
    return ⟨done.reverse⟩
  else
    fail (.codeLength length address)
termination_by length.toNat - address

/-- Reads code of the given length. -/
def decode (length : UInt32) : Decoder InstructionList :=
  decodeOnto length 0 []

end InstructionList

end ClassFormat
