import ClassFormat.AccessFlags
import ClassFormat.Annotation
import ClassFormat.Attribute.Kind
import ClassFormat.Instruction
import ClassFormat.StackMap

/-!
# Attributes

The attributes that class files, members and code carry. Indices of the constant pool stand as they
were read. An attribute `Code` has attributes of its own, so attributes are trees.
-/

set_option autoImplicit false
set_option relaxedAutoImplicit false

namespace ClassFormat

/-- A range of code and where an exception that is raised there is handled. -/
structure ExceptionHandler where
  startPc : UInt16
  endPc : UInt16
  handlerPc : UInt16
  /-- The class of what is handled, or zero for everything. -/
  catchType : UInt16
  deriving DecidableEq, Repr

/-- How many addresses the range of a handler has. -/
def ExceptionHandler.rangeLength (handler : ExceptionHandler) : Nat :=
  handler.endPc.toNat - handler.startPc.toNat

/-- A class that is named within a class. -/
structure InnerClass where
  innerIndex : UInt16
  /-- Zero unless the class is a member of another one. -/
  outerIndex : UInt16
  /-- Zero for a class without a name. -/
  nameIndex : UInt16
  accessFlags : AccessFlags .innerClass
  deriving DecidableEq, Repr

/-- The line from which the code at an address comes. -/
structure LineNumber where
  startPc : UInt16
  line : UInt16
  deriving DecidableEq, Repr

/-- A local variable of the source within a range of code. -/
structure LocalVariable where
  startPc : UInt16
  length : UInt16
  nameIndex : UInt16
  /-- Its descriptor or its signature, as the table has it. -/
  typeIndex : UInt16
  index : UInt16
  deriving DecidableEq, Repr

/-- A method that computes a call site or a constant, and what it is given. -/
structure BootstrapMethod where
  referenceIndex : UInt16
  arguments : List UInt16
  deriving DecidableEq, Repr

/-- A parameter of a method. -/
structure MethodParameter where
  /-- Zero for a parameter without a name. -/
  nameIndex : UInt16
  accessFlags : AccessFlags .parameter
  deriving DecidableEq, Repr

/-- The body of a method, over the type of the attributes that it has. -/
structure CodeBody (Nested : Type) where
  maxStack : UInt16
  maxLocals : UInt16
  instructions : InstructionList
  handlers : List ExceptionHandler
  attributes : List Nested

/-- An attribute. -/
inductive Attribute where
  | constantValue (index : UInt16)
  | code (body : CodeBody Attribute)
  | stackMapTable (frames : List StackMapFrame)
  | exceptions (classes : List UInt16)
  | bootstrapMethods (methods : List BootstrapMethod)
  | innerClasses (classes : List InnerClass)
  | enclosingMethod (classIndex methodIndex : UInt16)
  | synthetic
  | signature (index : UInt16)
  | visibleAnnotations (annotations : List Annotation)
  /-- These are read as elements without the type that they belong to. -/
  | invisibleAnnotations (elements : List (Element ElementValue))
  | visibleParameterAnnotations (parameters : List (List Annotation))
  | invisibleParameterAnnotations (parameters : List (List Annotation))
  | annotationDefault (value : ElementValue)
  | methodParameters (parameters : List MethodParameter)
  | sourceFile (index : UInt16)
  | sourceDebugExtension (bytes : List UInt8)
  | lineNumberTable (lines : List LineNumber)
  | localVariableTable (entries : List LocalVariable)
  | localVariableTypeTable (entries : List LocalVariable)
  | deprecated
  | nestHost (classIndex : UInt16)
  | nestMembers (classes : List UInt16)
  | permittedSubclasses (classes : List UInt16)

/-- The body of a method. -/
abbrev Code := CodeBody Attribute

namespace Attribute

/-- The kind of an attribute. -/
def kind : Attribute → Kind
  | constantValue .. => .constantValue
  | code .. => .code
  | stackMapTable .. => .stackMapTable
  | exceptions .. => .exceptions
  | bootstrapMethods .. => .bootstrapMethods
  | innerClasses .. => .innerClasses
  | enclosingMethod .. => .enclosingMethod
  | synthetic => .synthetic
  | signature .. => .signature
  | visibleAnnotations .. => .visibleAnnotations
  | invisibleAnnotations .. => .invisibleAnnotations
  | visibleParameterAnnotations .. => .visibleParameterAnnotations
  | invisibleParameterAnnotations .. => .invisibleParameterAnnotations
  | annotationDefault .. => .annotationDefault
  | methodParameters .. => .methodParameters
  | sourceFile .. => .sourceFile
  | sourceDebugExtension .. => .sourceDebugExtension
  | lineNumberTable .. => .lineNumberTable
  | localVariableTable .. => .localVariableTable
  | localVariableTypeTable .. => .localVariableTypeTable
  | deprecated => .deprecated
  | nestHost .. => .nestHost
  | nestMembers .. => .nestMembers
  | permittedSubclasses .. => .permittedSubclasses

/-- The name of an attribute. -/
def name (item : Attribute) : String :=
  item.kind.name

end Attribute

/-- The attributes of a class file, a member or a method body, in the order of the file. -/
abbrev Attributes := List Attribute

namespace Attributes

/-- The place of the first attribute of a name. -/
def indexOf? (attributes : Attributes) (name : String) : Option Nat :=
  attributes.findIdx? fun item ↦ item.name = name

/-- The first attribute of a name. -/
def find? (attributes : Attributes) (name : String) : Option Attribute :=
  List.find? (fun item ↦ item.name = name) attributes

/-- The places of all attributes of a name. -/
def indicesOf (attributes : Attributes) (name : String) : List Nat :=
  attributes.zipIdx.filterMap fun (item, place) ↦
    if item.name = name then some place else none

/-- The body of a method: the first attribute `Code`. -/
def code? (attributes : Attributes) : Option Code :=
  attributes.findSome? fun
    | .code body => some body
    | _ => none

/-- The index of the name of the source file: the first attribute `SourceFile`. -/
def sourceFile? (attributes : Attributes) : Option UInt16 :=
  attributes.findSome? fun
    | .sourceFile index => some index
    | _ => none

/-- The index of the value of a constant: the first attribute `ConstantValue`. -/
def constantValue? (attributes : Attributes) : Option UInt16 :=
  attributes.findSome? fun
    | .constantValue index => some index
    | _ => none

end Attributes

end ClassFormat
