import ClassFormat.Instruction.Operands
import Std.Data.HashMap

/-!
# Instructions

An instruction is an operation at an address of the code. The instructions of a method stand in the
order of their addresses, and each is found again by its address.
-/

set_option autoImplicit false
set_option relaxedAutoImplicit false

namespace ClassFormat

/-- An opcode with the operands that its form asks for. -/
structure Operation where
  opcode : Opcode
  operands : Operands opcode.form
  deriving DecidableEq

namespace Operation

/-- The operation that gives another instruction wider operands. -/
def wide (operation : WideOperation) : Operation :=
  ⟨Opcode.wide, Opcode.form_wide ▸ .wide operation⟩

/-- The text of an operation: the mnemonic and the operands with blanks between them. -/
def text (operation : Operation) : String :=
  String.intercalate " " (operation.opcode.mnemonic :: operation.operands.texts)

end Operation

/-- An operation and where its opcode stands in the code. -/
structure Instruction where
  address : UInt32
  operation : Operation
  deriving DecidableEq

/-- The text of an instruction: the address, a colon and the operation. -/
def Instruction.text (instruction : Instruction) : String :=
  s!"{instruction.address}: {instruction.operation.text}"

/-- The instructions of a method in the order of the code. -/
structure InstructionList where
  toList : List Instruction
  deriving DecidableEq

namespace InstructionList

/-- How many instructions there are. -/
def length (list : InstructionList) : Nat :=
  list.toList.length

/-- Whether there are no instructions. -/
def isEmpty (list : InstructionList) : Bool :=
  list.toList.isEmpty

/-- For every address at which an instruction stands, its place in the list. -/
def addressIndex (list : InstructionList) : Std.HashMap UInt32 Nat :=
  list.toList.zipIdx.foldl (fun index (instruction, place) ↦ index.insert instruction.address place)
    ∅

/-- The place in the list of the instruction that stands at an address. -/
def indexOf? (list : InstructionList) (address : UInt32) : Option Nat :=
  list.addressIndex[address]?

/-- The instruction that stands at an address. -/
def at? (list : InstructionList) (address : UInt32) : Option Instruction :=
  (list.indexOf? address).bind fun place ↦ list.toList[place]?

end InstructionList

end ClassFormat
