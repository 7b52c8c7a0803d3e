/-!
# Reading texts

The bytes of a text are read by a decoding. What is looked up by its text, and what is shown of it,
is the same for all of them: a decoding is given where texts are wanted, and no text is read where
none is given.
-/

set_option autoImplicit false
set_option relaxedAutoImplicit false

namespace ClassFormat.Text

/-- A way to read the bytes of a text. -/
class Decoding where
  /-- The text that bytes are read as, unless they are malformed. -/
  decode : List UInt8 → Option String

end ClassFormat.Text
