import ClassFormat.ClassFile
import ClassFormat.Listing.Constants

/-!
# Listing a class file

The lines that show a class file: what the class is, its constants if they are wanted, its fields,
and its methods with their instructions unless these are unwanted. An empty line ends the listing.
-/

set_option autoImplicit false
set_option relaxedAutoImplicit false

namespace ClassFormat.Listing

/-- What a listing shows beside the declarations. -/
structure Contents where
  constants : Bool
  code : Bool
  deriving DecidableEq, Repr

/-- The names of flags with blanks between them. -/
def flagText {declared : Declared} (flags : AccessFlags declared) : String :=
  String.intercalate " " flags.names

variable [Text.Decoding]

/-- The line of the class that a class extends, if it extends one. -/
def superClassLines (file : ClassFile) : List Line :=
  if file.superClass = 0 then []
  else [[.text "  super_class: ", .className file.pool file.superClass]]

/-- The lines that say what the class is. -/
def headLines (name : String) (file : ClassFile) : List Line :=
  [Line.ofText s!"Classfile {name}",
    Line.ofText s!"  version {file.majorVersion}.{file.minorVersion}",
    Line.ofText s!"  flags: {flagText file.accessFlags}",
    [.text "  this_class: ", .className file.pool file.thisClass]]
  ++ superClassLines file
  ++ file.interfaces.map (fun index ↦ [.text "  implements: ", .className file.pool index])
  ++ (Attributes.sourceFile? file.attributes).toList.map fun index ↦
    [.text "  source: ", .textAt file.pool index]

/-- The line of a field or a method. -/
def memberLine {declared : Declared} (pool : ConstantPool) (member : Member declared) : Line :=
  [.text s!"  {flagText member.accessFlags} ", .textAt pool member.nameIndex, .text " ",
    .textAt pool member.descriptorIndex]
  ++ member.attributes.map fun item ↦ .attributeNamed item.name

/-- What a handler handles. -/
def catchPiece (pool : ConstantPool) (catchType : UInt16) : Piece :=
  if catchType = 0 then .text "any" else .className pool catchType

/-- The line of a handler. -/
def handlerLine (pool : ConstantPool) (handler : ExceptionHandler) : Line :=
  [.text s!"      handler {handler.startPc}..{handler.endPc} -> {handler.handlerPc} (",
    catchPiece pool handler.catchType, .text ")"]

/-- The lines of the body of a method. -/
def codeLines (pool : ConstantPool) (code : Code) : List Line :=
  Line.ofText s!"    stack={code.maxStack} locals={code.maxLocals}" ::
    (code.instructions.toList.map fun instruction ↦ Line.ofText ("      " ++ instruction.text))
  ++ code.handlers.map (handlerLine pool)

/-- The lines of a method. -/
def methodLines (pool : ConstantPool) (showCode : Bool) (method : Method) : List Line :=
  memberLine pool method ::
    if showCode then method.code?.toList.flatMap (codeLines pool) else []

/-- Lines under a title, which is not shown without them. -/
def titled (title : String) (lines : List Line) : List Line :=
  if lines.isEmpty then [] else Line.ofText title :: lines

/-- The listing of a class file under a name. -/
def lines (contents : Contents) (name : String) (file : ClassFile) : List Line :=
  headLines name file
  ++ (if contents.constants then constantLines file.pool else [])
  ++ titled "Fields:" (file.fields.map (memberLine file.pool))
  ++ titled "Methods:" (file.methods.flatMap (methodLines file.pool contents.code))
  ++ [Line.ofText ""]

end ClassFormat.Listing
