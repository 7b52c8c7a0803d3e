/-!
# Opcodes

The instruction set as one table of 256 places: for every opcode byte its mnemonic and the form of
the operands that follow it, or a gap where no instruction is assigned. An `Opcode` is a byte at
which the table has an instruction, so every opcode has a mnemonic and a form.
-/

set_option autoImplicit false
set_option relaxedAutoImplicit false

namespace ClassFormat

/-- Which operands follow an opcode. -/
inductive Form where
  /-- Nothing follows. -/
  | plain
  | signedByte
  | signedShort
  /-- An index of one byte, into the constant pool or the local variables. -/
  | byteIndex
  /-- An index of two bytes into the constant pool. -/
  | index
  /-- A local variable and a signed byte. -/
  | increment
  /-- A branch over a signed distance of two bytes. -/
  | branch
  /-- A branch over a signed distance of four bytes. -/
  | wideBranch
  /-- An index, a count and one reserved byte. -/
  | interfaceCall
  /-- An index and two reserved bytes. -/
  | dynamicCall
  /-- The element type of an array. -/
  | arrayType
  /-- An index and a number of dimensions. -/
  | multiArray
  /-- A range of keys and a branch for each. -/
  | tableSwitch
  /-- Keys, each with its branch. -/
  | lookupSwitch
  /-- Another instruction with wider operands. -/
  | wide
  deriving DecidableEq, Repr

/-- One place of the instruction set. -/
structure OpcodeRow where
  mnemonic : String
  form : Form
  deriving DecidableEq, Repr

namespace OpcodeRow

/-- Consecutive places whose operands have the same form. -/
def run (form : Form) (mnemonics : List String) : List (Option OpcodeRow) :=
  mnemonics.map fun mnemonic ↦ some ⟨mnemonic, form⟩

/-- Consecutive places without an instruction. -/
def gap (count : Nat) : List (Option OpcodeRow) :=
  List.replicate count none

/-- The places of the instruction set in the order of their bytes. -/
def places : List (Option OpcodeRow) :=
  List.flatten [
    run .plain ["nop", "aconst_null", "iconst_m1", "iconst_0", "iconst_1", "iconst_2", "iconst_3",
      "iconst_4", "iconst_5", "lconst_0", "lconst_1", "fconst_0", "fconst_1", "fconst_2",
      "dconst_0", "dconst_1"],
    run .signedByte ["bipush"],
    run .signedShort ["sipush"],
    run .byteIndex ["ldc"],
    run .index ["ldc_w", "ldc2_w"],
    run .byteIndex ["iload", "lload", "fload", "dload", "aload"],
    run .plain ["iload_0", "iload_1", "iload_2", "iload_3", "lload_0", "lload_1", "lload_2",
      "lload_3", "fload_0", "fload_1", "fload_2", "fload_3", "dload_0", "dload_1", "dload_2",
      "dload_3", "aload_0", "aload_1", "aload_2", "aload_3", "iaload", "laload", "faload",
      "daload", "aaload", "baload", "caload", "saload"],
    run .byteIndex ["istore", "lstore", "fstore", "dstore", "astore"],
    run .plain ["istore_0", "istore_1", "istore_2", "istore_3", "lstore_0", "lstore_1",
      "lstore_2", "lstore_3", "fstore_0", "fstore_1", "fstore_2", "fstore_3", "dstore_0",
      "dstore_1", "dstore_2", "dstore_3", "astore_0", "astore_1", "astore_2", "astore_3",
      "iastore", "lastore", "fastore", "dastore", "aastore", "bastore", "castore", "sastore",
      "pop", "pop2", "dup", "dup_x1", "dup_x2", "dup2", "dup2_x1", "dup2_x2", "swap",
      "iadd", "ladd", "fadd", "dadd", "isub", "lsub", "fsub", "dsub",
      "imul", "lmul", "fmul", "dmul", "idiv", "ldiv", "fdiv", "ddiv",
      "irem", "lrem", "frem", "drem", "ineg", "lneg", "fneg", "dneg",
      "ishl", "lshl", "ishr", "lshr", "iushr", "lushr",
      "iand", "land", "ior", "lor", "ixor", "lxor"],
    run .increment ["iinc"],
    run .plain ["i2l", "i2f", "i2d", "l2i", "l2f", "l2d", "f2i", "f2l", "f2d", "d2i", "d2l", "d2f",
      "i2b", "i2c", "i2s", "lcmp", "fcmpl", "fcmpg", "dcmpl", "dcmpg"],
    run .branch ["ifeq", "ifne", "iflt", "ifge", "ifgt", "ifle",
      "if_icmpeq", "if_icmpne", "if_icmplt", "if_icmpge", "if_icmpgt", "if_icmple",
      "if_acmpeq", "if_acmpne", "goto", "jsr"],
    run .byteIndex ["ret"],
    run .tableSwitch ["tableswitch"],
    run .lookupSwitch ["lookupswitch"],
    run .plain ["ireturn", "lreturn", "freturn", "dreturn", "areturn", "return"],
    run .index ["getstatic", "putstatic", "getfield", "putfield", "invokevirtual",
      "invokespecial", "invokestatic"],
    run .interfaceCall ["invokeinterface"],
    run .dynamicCall ["invokedynamic"],
    run .index ["new"],
    run .arrayType ["newarray"],
    run .index ["anewarray"],
    run .plain ["arraylength", "athrow"],
    run .index ["checkcast", "instanceof"],
    run .plain ["monitorenter", "monitorexit"],
    run .wide ["wide"],
    run .multiArray ["multianewarray"],
    run .branch ["ifnull", "ifnonnull"],
    run .wideBranch ["goto_w", "jsr_w"],
    run .plain ["breakpoint"],
    gap 51,
    run .plain ["impdep1", "impdep2"]]

/-- The table of the instruction set. It is opened by evaluation only, never while terms are
compared: a comparison has no use for its contents. -/
@[irreducible] def table : Array (Option OpcodeRow) :=
  places.toArray

/-- The place of a byte in the table. -/
def ofByte? (byte : UInt8) : Option OpcodeRow :=
  table[byte.toNat]?.join

/-- Every byte has its place. -/
theorem size_table : table.size = 256 := by
  decide +kernel

end OpcodeRow

/-- The byte of an instruction. -/
structure Opcode where
  byte : UInt8
  assigned : (OpcodeRow.ofByte? byte).isSome
  deriving DecidableEq, Repr

namespace Opcode

/-- The opcode of a byte, if an instruction is assigned to it. -/
def ofByte? (byte : UInt8) : Option Opcode :=
  if assigned : (OpcodeRow.ofByte? byte).isSome then some ⟨byte, assigned⟩ else none

/-- The place of an opcode in the table. -/
def row (opcode : Opcode) : OpcodeRow :=
  (OpcodeRow.ofByte? opcode.byte).get opcode.assigned

/-- The name of the instruction. -/
def mnemonic (opcode : Opcode) : String :=
  opcode.row.mnemonic

/-- Which operands follow the opcode. -/
def form (opcode : Opcode) : Form :=
  opcode.row.form

/-- The opcode that gives another instruction wider operands. -/
def wide : Opcode :=
  ⟨0xc4, by decide +kernel⟩

theorem form_wide : wide.form = .wide := by
  decide +kernel

/-- The byte of the instruction that adds a constant to a local variable. -/
def incrementByte : UInt8 := 0x84

end Opcode

/-- The mnemonic that is assigned to a byte. -/
def mnemonic? (byte : UInt8) : Option String :=
  (Opcode.ofByte? byte).map Opcode.mnemonic

end ClassFormat
