import ClassFormat.Attribute.Decoder

/-!
# Members

The fields and methods of a class. Both have the same layout and differ in what their flags mean.
-/

set_option autoImplicit false
set_option relaxedAutoImplicit false

namespace ClassFormat

/-- A field or a method. -/
structure Member (declared : Declared) where
  accessFlags : AccessFlags declared
  nameIndex : UInt16
  descriptorIndex : UInt16
  attributes : Attributes

/-- A field of a class. -/
abbrev Field := Member .field

/-- A method of a class. -/
abbrev Method := Member .method

namespace Member

variable {declared : Declared}

open Decoder

section Texts

variable [Text.Decoding]

/-- The name of a member. -/
def name (member : Member declared) (pool : ConstantPool) : Except LookupError String :=
  pool.text member.nameIndex.toNat

/-- The descriptor of a member. -/
def descriptor (member : Member declared) (pool : ConstantPool) : Except LookupError String :=
  pool.text member.descriptorIndex.toNat

/-- Whether a member has the given name and descriptor. One that has no readable name has none. -/
def isNamed (member : Member declared) (pool : ConstantPool) (name descriptor : String) : Bool :=
  (member.name pool).toOption = some name && (member.descriptor pool).toOption = some descriptor

end Texts

/-- The body of a method. -/
def code? (member : Member declared) : Option Code :=
  Attributes.code? member.attributes

/-- Reads a member. -/
def decode (pool : Option ConstantPool) : Decoder (Member declared) := do
  let bits ← u2
  let nameIndex ← u2
  let descriptorIndex ← u2
  let attributes ← Attributes.decode pool
  return ⟨⟨bits⟩, nameIndex, descriptorIndex, attributes⟩

end Member

end ClassFormat
