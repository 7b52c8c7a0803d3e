import ClassFormat.Decoder

/-!
# Annotations

An annotation has a type and elements, an element has a name and a value, and a value may be a list
of values or again an annotation. How deep values may lie within values is limited: a value that
more than 64 lists and annotations enclose is refused before anything of it is read.
-/

set_option autoImplicit false
set_option relaxedAutoImplicit false

namespace ClassFormat

open Decoder

/-- The type of a constant that is the value of an element. -/
inductive ElementTag where
  | byte
  | char
  | double
  | float
  | int
  | long
  | short
  | boolean
  | string
  deriving DecidableEq, Repr

namespace ElementTag

/-- Every tag. -/
def all : List ElementTag :=
  [byte, char, double, float, int, long, short, boolean, string]

/-- The letter of a tag. -/
def letter : ElementTag → Char
  | byte => 'B'
  | char => 'C'
  | double => 'D'
  | float => 'F'
  | int => 'I'
  | long => 'J'
  | short => 'S'
  | boolean => 'Z'
  | string => 's'

/-- The byte that stands for a tag: its letter. -/
def code (tag : ElementTag) : UInt8 :=
  UInt8.ofNat tag.letter.toNat

/-- The tag that a byte stands for. -/
def ofCode? (code : UInt8) : Option ElementTag :=
  all.find? fun tag ↦ tag.code = code

end ElementTag

/-- A name, as an index of the constant pool, and the value of that name. -/
structure Element (Value : Type) where
  nameIndex : UInt16
  value : Value
  deriving DecidableEq, Repr

/-- The value of an element. -/
inductive ElementValue where
  | constant (tag : ElementTag) (index : UInt16)
  | enumConstant (typeIndex nameIndex : UInt16)
  | classInfo (index : UInt16)
  | array (values : List ElementValue)
  /-- An annotation within an annotation. -/
  | nested (typeIndex : UInt16) (elements : List (Element ElementValue))

/-- An annotation. -/
structure Annotation where
  typeIndex : UInt16
  elements : List (Element ElementValue)

/-- How many lists and annotations may enclose a value. -/
def ElementValue.maxNesting : Nat := 64

/-- Reads an element whose value the given decoder reads. -/
def Element.decode {Value : Type} (value : Decoder Value) : Decoder (Element Value) := do
  return ⟨← u2, ← value⟩

/-- Reads a value. It and the values that lie one within the other inside it may be `levels` deep in
all. -/
def ElementValue.decodeWithin : (levels : Nat) → Decoder ElementValue
  | 0 => fail (.nesting maxNesting)
  | levels + 1 => do
    let start ← offset
    let code ← u1
    match ElementTag.ofCode? code with
    | some tag => return .constant tag (← u2)
    | none =>
      match Char.ofNat code.toNat with
      | 'e' => return .enumConstant (← u2) (← u2)
      | 'c' => return .classInfo (← u2)
      | '@' => return .nested (← u2) (← counted (Element.decode (decodeWithin levels)))
      | '[' => return .array (← counted (decodeWithin levels))
      | _ => failAt start (.unknownElementTag code)

/-- Reads a value that nothing encloses. -/
def ElementValue.decode : Decoder ElementValue :=
  decodeWithin (maxNesting + 1)

/-- Reads an annotation. The values of its own elements count as enclosed by nothing. -/
def Annotation.decode : Decoder Annotation := do
  return ⟨← u2, ← counted (Element.decode ElementValue.decode)⟩

end ClassFormat
