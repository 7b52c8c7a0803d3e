import ClassFormat.Attribute
import ClassFormat.ConstantPool
import ClassFormat.Instruction.Decoder
import ClassFormat.Text.LossyUtf8

/-!
# Reading attributes

An attribute stands behind the index of its name and the length of its body. The body is read as a
part of the input of exactly that length: a body that would take more bytes, or that leaves some,
does not have the length which its header declares. Attributes lie within attributes through method
bodies, and how deep is limited. Only the names of attributes are looked up in the constant pool.
-/

set_option autoImplicit false
set_option relaxedAutoImplicit false

namespace ClassFormat

open Decoder

/-- Reads a handler. -/
def ExceptionHandler.decode : Decoder ExceptionHandler := do
  return ⟨← u2, ← u2, ← u2, ← u2⟩

/-- Reads a class that is named within a class. -/
def InnerClass.decode : Decoder InnerClass := do
  return ⟨← u2, ← u2, ← u2, ⟨← u2⟩⟩

/-- Reads where a line begins. -/
def LineNumber.decode : Decoder LineNumber := do
  return ⟨← u2, ← u2⟩

/-- Reads a local variable. -/
def LocalVariable.decode : Decoder LocalVariable := do
  return ⟨← u2, ← u2, ← u2, ← u2, ← u2⟩

/-- Reads a bootstrap method. -/
def BootstrapMethod.decode : Decoder BootstrapMethod := do
  return ⟨← u2, ← counted u2⟩

/-- Reads a parameter of a method. -/
def MethodParameter.decode : Decoder MethodParameter := do
  return ⟨← u2, ⟨← u2⟩⟩

/-- Reads the annotations of one parameter. -/
def Annotation.decodeParameter : Decoder (List Annotation) :=
  counted Annotation.decode

namespace Attribute

/-- How many method bodies may enclose an attribute. -/
def maxNesting : Nat := 8

/-- Reads the body of a method; `nested` reads an attribute of that body. -/
def decodeCode (nested : Decoder Attribute) : Decoder Code := do
  let maxStack ← u2
  let maxLocals ← u2
  let length ← u4
  let instructions ← bounded length.toNat (.codeLength length) (InstructionList.decode length)
  let handlers ← counted ExceptionHandler.decode
  let attributes ← counted nested
  return ⟨maxStack, maxLocals, instructions, handlers, attributes⟩

/-- Reads the body of an attribute of a kind; `nested` reads an attribute within it. -/
def decodeBody (nested : Decoder Attribute) : Kind → Decoder Attribute
  | .constantValue => do return constantValue (← u2)
  | .code => do return code (← decodeCode nested)
  | .stackMapTable => do return stackMapTable (← counted StackMapFrame.decode)
  | .exceptions => do return exceptions (← counted u2)
  | .bootstrapMethods => do return bootstrapMethods (← counted BootstrapMethod.decode)
  | .innerClasses => do return innerClasses (← counted InnerClass.decode)
  | .enclosingMethod => do return enclosingMethod (← u2) (← u2)
  | .synthetic => return synthetic
  | .signature => do return signature (← u2)
  | .visibleAnnotations => do return visibleAnnotations (← counted Annotation.decode)
  | .invisibleAnnotations => do
    return invisibleAnnotations (← counted (Element.decode ElementValue.decode))
  | .visibleParameterAnnotations => do
    return visibleParameterAnnotations (← shortCounted Annotation.decodeParameter)
  | .invisibleParameterAnnotations => do
    return invisibleParameterAnnotations (← shortCounted Annotation.decodeParameter)
  | .annotationDefault => do return annotationDefault (← ElementValue.decode)
  | .methodParameters => do return methodParameters (← shortCounted MethodParameter.decode)
  | .sourceFile => do return sourceFile (← u2)
  | .sourceDebugExtension => do
    let length ← u4
    return sourceDebugExtension (← take length.toNat)
  | .lineNumberTable => do return lineNumberTable (← counted LineNumber.decode)
  | .localVariableTable => do return localVariableTable (← counted LocalVariable.decode)
  | .localVariableTypeTable => do return localVariableTypeTable (← counted LocalVariable.decode)
  | .deprecated => return deprecated
  | .nestHost => do return nestHost (← u2)
  | .nestMembers => do return nestMembers (← counted u2)
  | .permittedSubclasses => do return permittedSubclasses (← counted u2)

/-- Reads the body of an attribute whose header stands at `start` and gives the name and the length
of the body. -/
def decodeFramed (nested : Decoder Attribute) (start : Nat) (name : List UInt8) (length : UInt32) :
    Decoder Attribute :=
  let shown := Text.LossyUtf8.decode name
  bounded length.toNat (.attributeLength shown length) do
    record (.attributeBody shown length start)
    match Kind.ofNameBytes? name with
    | none => failAt start (.unknownAttribute shown)
    | some kind =>
      let (item, consumed) ← measured (decodeBody nested kind)
      if (← remaining) = 0 then return item
      else fail (.attributeLength shown length consumed)

/-- Reads an attribute. It and the attributes that lie one within the other inside it may be
`levels` deep in all. -/
def decodeWithin (pool : ConstantPool) : (levels : Nat) → Decoder Attribute
  | 0 => fail (.nesting maxNesting)
  | levels + 1 => do
    let start ← offset
    let nameIndex ← u2
    let length ← u4
    let name ← resolve start (pool.utf8 nameIndex.toNat)
    decodeFramed (decodeWithin pool levels) start name length

/-- Reads an attribute. A cursor within other parts of the input has fewer levels left. -/
def decode (pool : ConstantPool) : Decoder Attribute := do
  decodeWithin pool (maxNesting + 1 - (← depth))

end Attribute

/-- Reads a number of attributes and the attributes. Without a pool they have no names. -/
def Attributes.decode (pool : Option ConstantPool) : Decoder Attributes := do
  match pool with
  | some pool => counted (Attribute.decode pool)
  | none => fail .missingPool

end ClassFormat
