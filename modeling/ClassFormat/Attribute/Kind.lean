/-!
# Kinds of attributes

An attribute is recognised by its name alone. These are the names that have a meaning here.
-/

set_option autoImplicit false
set_option relaxedAutoImplicit false

namespace ClassFormat.Attribute

/-- The kind of an attribute. -/
inductive Kind where
  | constantValue
  | code
  | stackMapTable
  | exceptions
  | bootstrapMethods
  | innerClasses
  | enclosingMethod
  | synthetic
  | signature
  | visibleAnnotations
  | invisibleAnnotations
  | visibleParameterAnnotations
  | invisibleParameterAnnotations
  | annotationDefault
  | methodParameters
  | sourceFile
  | sourceDebugExtension
  | lineNumberTable
  | localVariableTable
  | localVariableTypeTable
  | deprecated
  | nestHost
  | nestMembers
  | permittedSubclasses
  deriving DecidableEq, Repr

namespace Kind

/-- Every kind. -/
def all : List Kind :=
  [constantValue, code, stackMapTable, exceptions, bootstrapMethods, innerClasses, enclosingMethod,
    synthetic, signature, visibleAnnotations, invisibleAnnotations, visibleParameterAnnotations,
    invisibleParameterAnnotations, annotationDefault, methodParameters, sourceFile,
    sourceDebugExtension, lineNumberTable, localVariableTable, localVariableTypeTable, deprecated,
    nestHost, nestMembers, permittedSubclasses]

/-- The name of a kind. -/
def name : Kind → String
  | constantValue => "ConstantValue"
  | code => "Code"
  | stackMapTable => "StackMapTable"
  | exceptions => "Exceptions"
  | bootstrapMethods => "BootstrapMethods"
  | innerClasses => "InnerClasses"
  | enclosingMethod => "EnclosingMethod"
  | synthetic => "Synthetic"
  | signature => "Signature"
  | visibleAnnotations => "RuntimeVisibleAnnotations"
  | invisibleAnnotations => "RuntimeInvisibleAnnotations"
  | visibleParameterAnnotations => "RuntimeVisibleParameterAnnotations"
  | invisibleParameterAnnotations => "RuntimeInvisibleParameterAnnotations"
  | annotationDefault => "AnnotationDefault"
  | methodParameters => "MethodParameters"
  | sourceFile => "SourceFile"
  | sourceDebugExtension => "SourceDebugExtension"
  | lineNumberTable => "LineNumberTable"
  | localVariableTable => "LocalVariableTable"
  | localVariableTypeTable => "LocalVariableTypeTable"
  | deprecated => "Deprecated"
  | nestHost => "NestHost"
  | nestMembers => "NestMembers"
  | permittedSubclasses => "PermittedSubclasses"

/-- The bytes of the name. A name has letters of the basic alphabet only, one byte each. -/
def nameBytes (kind : Kind) : List UInt8 :=
  kind.name.toList.map fun letter ↦ UInt8.ofNat letter.toNat

/-- The kind whose name has the given bytes. -/
def ofNameBytes? (bytes : List UInt8) : Option Kind :=
  all.find? fun kind ↦ kind.nameBytes = bytes

end Kind

end ClassFormat.Attribute
