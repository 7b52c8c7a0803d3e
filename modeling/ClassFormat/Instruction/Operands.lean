import ClassFormat.Instruction.Opcode
import ClassFormat.Text.Hexadecimal

/-!
# Operands

The operands of an instruction, one shape for each form, and the text that shows them. Branches hold
the address that they lead to and not the distance, and an address that a branch leads to may lie
anywhere: before the code, behind it or within another instruction.
-/

set_option autoImplicit false
set_option relaxedAutoImplicit false

namespace ClassFormat

/-- The element type of an array of primitive values. -/
inductive ArrayType where
  | boolean
  | char
  | float
  | double
  | byte
  | short
  | int
  | long
  deriving DecidableEq, Repr

namespace ArrayType

/-- Every element type, in the order of the codes. -/
def all : List ArrayType :=
  [boolean, char, float, double, byte, short, int, long]

/-- The byte that stands for an element type. -/
def code : ArrayType → UInt8
  | boolean => 4
  | char => 5
  | float => 6
  | double => 7
  | byte => 8
  | short => 9
  | int => 10
  | long => 11

/-- The element type that a byte stands for. -/
def ofCode? (code : UInt8) : Option ArrayType :=
  all.find? fun element ↦ element.code = code

/-- The name of an element type. -/
def name : ArrayType → String
  | boolean => "boolean"
  | char => "char"
  | float => "float"
  | double => "double"
  | byte => "byte"
  | short => "short"
  | int => "int"
  | long => "long"

end ArrayType

/-- An instruction whose operands are wider than usual. -/
inductive WideOperation where
  /-- Any instruction on a local variable; which one is not checked. -/
  | onVariable (opcode : UInt8) (index : UInt16)
  /-- Adding a constant to a local variable. -/
  | increment (index : UInt16) (amount : Int16)
  deriving DecidableEq, Repr

/-- The text of a wide operation. A byte without an instruction is shown in base sixteen. -/
def WideOperation.text : WideOperation → String
  | onVariable opcode index =>
    let name := (mnemonic? opcode).getD ("0x" ++ Text.hexadecimal 2 opcode.toNat)
    s!"{name} {index}"
  | increment index amount => s!"iinc {index} {amount}"

/-- The operands of an instruction of a form. -/
inductive Operands : Form → Type where
  | plain : Operands .plain
  | signedByte (value : Int8) : Operands .signedByte
  | signedShort (value : Int16) : Operands .signedShort
  | byteIndex (index : UInt8) : Operands .byteIndex
  | index (index : UInt16) : Operands .index
  | increment (index : UInt8) (amount : Int8) : Operands .increment
  | branch (target : Int) : Operands .branch
  | wideBranch (target : Int) : Operands .wideBranch
  | interfaceCall (index : UInt16) (count : UInt8) : Operands .interfaceCall
  | dynamicCall (index : UInt16) : Operands .dynamicCall
  | arrayType (element : ArrayType) : Operands .arrayType
  | multiArray (index : UInt16) (dimensions : UInt8) : Operands .multiArray
  | tableSwitch (fallback : Int) (low high : Int32) (targets : List Int) : Operands .tableSwitch
  | lookupSwitch (fallback : Int) (pairs : List (Int32 × Int)) : Operands .lookupSwitch
  | wide (operation : WideOperation) : Operands .wide
  deriving DecidableEq, Repr

namespace Operands

/-- Entries with a comma and a blank between them. -/
def commaList (entries : List String) : String :=
  String.intercalate ", " entries

/-- The texts of the operands in order. -/
def texts : {form : Form} → Operands form → List String
  | _, .plain => []
  | _, .signedByte value => [toString value]
  | _, .signedShort value => [toString value]
  | _, .byteIndex place => [toString place]
  | _, .index place => [toString place]
  | _, .increment place amount => [toString place, toString amount]
  | _, .branch target => [toString target]
  | _, .wideBranch target => [toString target]
  | _, .interfaceCall place count => [toString place, toString count]
  | _, .dynamicCall place => [toString place]
  | _, .arrayType element => [element.name]
  | _, .multiArray place dimensions => [toString place, toString dimensions]
  | _, .tableSwitch fallback low high targets =>
    [s!"default={fallback}", s!"low={low}", s!"high={high}",
      "[" ++ commaList (targets.map toString) ++ "]"]
  | _, .lookupSwitch fallback pairs =>
    [s!"default={fallback}",
      "\x7b" ++ commaList (pairs.map fun (key, target) ↦ s!"{key}: {target}") ++ "\x7d"]
  | _, .wide operation => [operation.text]

end Operands

end ClassFormat
