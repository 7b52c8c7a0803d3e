/-!
# Access flags

Sixteen bits that say how something was declared. What a bit means depends on what is declared. Bits
without a meaning are kept, since nothing in a class file forbids them.
-/

set_option autoImplicit false
set_option relaxedAutoImplicit false

namespace ClassFormat

/-- What access flags are about. -/
inductive Declared where
  | classFile
  | field
  | method
  | innerClass
  | parameter
  deriving DecidableEq, Repr

/-- The bits that have a meaning, from the lowest, with their names. -/
def Declared.flagNames : Declared → List (UInt16 × String)
  | classFile =>
    [(0x0001, "ACC_PUBLIC"), (0x0010, "ACC_FINAL"), (0x0020, "ACC_SUPER"),
      (0x0200, "ACC_INTERFACE"), (0x0400, "ACC_ABSTRACT"), (0x1000, "ACC_SYNTHETIC"),
      (0x2000, "ACC_ANNOTATION"), (0x4000, "ACC_ENUM"), (0x8000, "ACC_MODULE")]
  | field =>
    [(0x0001, "ACC_PUBLIC"), (0x0002, "ACC_PRIVATE"), (0x0004, "ACC_PROTECTED"),
      (0x0008, "ACC_STATIC"), (0x0010, "ACC_FINAL"), (0x0040, "ACC_VOLATILE"),
      (0x0080, "ACC_TRANSIENT"), (0x1000, "ACC_SYNTHETIC"), (0x4000, "ACC_ENUM")]
  | method =>
    [(0x0001, "ACC_PUBLIC"), (0x0002, "ACC_PRIVATE"), (0x0004, "ACC_PROTECTED"),
      (0x0008, "ACC_STATIC"), (0x0010, "ACC_FINAL"), (0x0020, "ACC_SYNCHRONIZED"),
      (0x0040, "ACC_BRIDGE"), (0x0080, "ACC_VARARGS"), (0x0100, "ACC_NATIVE"),
      (0x0400, "ACC_ABSTRACT"), (0x0800, "ACC_STRICT"), (0x1000, "ACC_SYNTHETIC")]
  | innerClass =>
    [(0x0001, "ACC_PUBLIC"), (0x0002, "ACC_PRIVATE"), (0x0004, "ACC_PROTECTED"),
      (0x0008, "ACC_STATIC"), (0x0010, "ACC_FINAL"), (0x0200, "ACC_INTERFACE"),
      (0x0400, "ACC_ABSTRACT"), (0x1000, "ACC_SYNTHETIC"), (0x2000, "ACC_ANNOTATION"),
      (0x4000, "ACC_ENUM")]
  | parameter =>
    [(0x0010, "ACC_FINAL"), (0x1000, "ACC_SYNTHETIC"), (0x8000, "ACC_MANDATED")]

/-- The access flags of a declaration. -/
structure AccessFlags (declared : Declared) where
  bits : UInt16
  deriving DecidableEq, Repr

/-- The names of the flags that are set, from the lowest bit. -/
def AccessFlags.names {declared : Declared} (flags : AccessFlags declared) : List String :=
  declared.flagNames.filterMap fun (bit, name) ↦
    if flags.bits &&& bit = 0 then none else some name

end ClassFormat
