import ClassFormat.Text.Hexadecimal

/-!
# A byte in single quotes

A byte stands for the character of the same code point. It is shown between single quotes, and what
would not be visible there, the quote and the backslash are written as escapes.
-/

set_option autoImplicit false
set_option relaxedAutoImplicit false

namespace ClassFormat.Text

/-- Characters below U+0100 that have no visible form of their own: the two control blocks, the
no-break space between them and the letters, and the soft hyphen. -/
def isInvisible (byte : UInt8) : Bool :=
  byte < 0x20 || (0x7f ≤ byte && byte ≤ 0xa0) || byte = 0xad

/-- What stands between the quotes. -/
def escapedByte (byte : UInt8) : String :=
  if byte = 0x00 then "\\0"
  else if byte = 0x09 then "\\t"
  else if byte = 0x0a then "\\n"
  else if byte = 0x0d then "\\r"
  else if byte = 0x27 then "\\'"
  else if byte = 0x5c then "\\\\"
  else if isInvisible byte then "\\u\x7b" ++ hexadecimal 1 byte.toNat ++ "\x7d"
  else String.singleton (Char.ofNat byte.toNat)

/-- The character of code point `byte` in single quotes. -/
def quotedByte (byte : UInt8) : String :=
  "'" ++ escapedByte byte ++ "'"

end ClassFormat.Text
