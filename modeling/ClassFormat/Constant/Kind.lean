/-!
# Kinds of constants

The seventeen kinds of constants that a pool may hold, each with the tag byte that announces it in a
class file and the name that listings and messages use.
-/

set_option autoImplicit false
set_option relaxedAutoImplicit false

namespace ClassFormat.Constant

/-- The kind of a constant. -/
inductive Kind where
  | utf8
  | integer
  | float
  | long
  | double
  | classRef
  | string
  | fieldRef
  | methodRef
  | interfaceMethodRef
  | nameAndType
  | methodHandle
  | methodType
  | dynamic
  | invokeDynamic
  | moduleName
  | packageName
  deriving DecidableEq, Repr

namespace Kind

/-- Every kind, in the order of the tags. -/
def all : List Kind :=
  [utf8, integer, float, long, double, classRef, string, fieldRef, methodRef, interfaceMethodRef,
    nameAndType, methodHandle, methodType, dynamic, invokeDynamic, moduleName, packageName]

/-- The byte that stands before a constant of this kind. -/
def tag : Kind → UInt8
  | utf8 => 1
  | integer => 3
  | float => 4
  | long => 5
  | double => 6
  | classRef => 7
  | string => 8
  | fieldRef => 9
  | methodRef => 10
  | interfaceMethodRef => 11
  | nameAndType => 12
  | methodHandle => 15
  | methodType => 16
  | dynamic => 17
  | invokeDynamic => 18
  | moduleName => 19
  | packageName => 20

/-- The kind that a tag byte announces. -/
def ofTag? (byte : UInt8) : Option Kind :=
  all.find? fun kind ↦ kind.tag = byte

/-- The name of the kind. -/
def name : Kind → String
  | utf8 => "Utf8"
  | integer => "Integer"
  | float => "Float"
  | long => "Long"
  | double => "Double"
  | classRef => "Class"
  | string => "String"
  | fieldRef => "Fieldref"
  | methodRef => "Methodref"
  | interfaceMethodRef => "InterfaceMethodref"
  | nameAndType => "NameAndType"
  | methodHandle => "MethodHandle"
  | methodType => "MethodType"
  | dynamic => "Dynamic"
  | invokeDynamic => "InvokeDynamic"
  | moduleName => "Module"
  | packageName => "Package"

/-- A tag byte announces a kind exactly if it is that kind's tag. -/
theorem ofTag?_eq_some_iff (byte : UInt8) (kind : Kind) :
    ofTag? byte = some kind ↔ kind.tag = byte := by
  constructor
  · intro found
    unfold ofTag? at found
    simpa using List.find?_some found
  · rintro rfl
    cases kind <;> decide

end Kind

end ClassFormat.Constant
