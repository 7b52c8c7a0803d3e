import ClassFormat.ConstantPool.LookupError
import ClassFormat.Text.QuotedByte

/-!
# Decoding errors

Why bytes are not a class file, and where. The offset of an error always counts from the start of
the whole input, however deep the structure lies in which the error arose.
-/

set_option autoImplicit false
set_option relaxedAutoImplicit false

namespace ClassFormat

/-- The reason why decoding stopped. -/
inductive DecodeError.Cause where
  /-- The input does not begin with the magic number. -/
  | badMagic (found : UInt32)
  /-- The input ended before the `requested` bytes that were to be read. -/
  | truncated (requested : Nat)
  | unknownConstantTag (tag : UInt8)
  | unknownAttribute (name : String)
  | unknownOpcode (opcode : UInt8)
  | unknownElementTag (tag : UInt8)
  /-- The body of an attribute has another length than its header declares. -/
  | attributeLength (name : String) (declared : UInt32) (consumed : Nat)
  | unknownFrameType (frameType : UInt8)
  | unknownVerificationType (tag : UInt8)
  | unknownArrayType (code : UInt8)
  /-- The name of an attribute could not be had from the constant pool. -/
  | lookup (error : LookupError)
  /-- Attributes were met and there is no pool to find their names in. -/
  | missingPool
  /-- The instructions of a method do not end where the code ends. -/
  | codeLength (declared : UInt32) (decoded : Nat)
  /-- A constant of two slots stands in the last slot. -/
  | poolOverflow (index count : Nat)
  | nesting (limit : Nat)
  | trailing (count : Nat)
  /-- The source of the bytes failed. -/
  | sourceFault
  deriving DecidableEq, Repr

/-- The text of a cause. -/
def DecodeError.Cause.message : DecodeError.Cause → String
  | badMagic found =>
    "malformed header: bad magic number 0x" ++ Text.hexadecimal 8 found.toNat
  | truncated requested => s!"truncated input: {requested} byte(s) requested past the end"
  | unknownConstantTag tag => s!"unknown constant pool tag {tag}"
  | unknownAttribute name => s!"unknown attribute `{name}`"
  | unknownOpcode opcode => "unknown opcode 0x" ++ Text.hexadecimal 2 opcode.toNat
  | unknownElementTag tag => "unknown element value tag " ++ Text.quotedByte tag
  | attributeLength name declared consumed =>
    s!"attribute `{name}` declares {declared} byte(s) but {consumed} were consumed"
  | unknownFrameType frameType => s!"unknown stack map frame type {frameType}"
  | unknownVerificationType tag => s!"unknown verification type {tag}"
  | unknownArrayType code => s!"unknown newarray element type {code}"
  | lookup error => error.message
  | missingPool => "attributes cannot be decoded without a constant pool"
  | codeLength declared decoded =>
    s!"instructions overran the declared code length {declared} (decoded up to {decoded})"
  | poolOverflow index count =>
    s!"wide constant at index {index} overflows the declared pool count {count}"
  | nesting limit => s!"structures nested deeper than {limit} level(s)"
  | trailing count => s!"{count} trailing byte(s) after the class file"
  | sourceFault => "I/O error: reader failed"

/-- A cause and the place in the whole input that it concerns. -/
structure DecodeError where
  cause : DecodeError.Cause
  offset : Nat
  deriving DecidableEq, Repr

/-- The text of an error: its cause, then its place. -/
def DecodeError.message (error : DecodeError) : String :=
  s!"{error.cause.message} (at byte offset {error.offset})"

end ClassFormat
