import ClassFormat.Member
import ClassFormat.Proofs.Plain
import Mathlib.Tactic.SplitIfs

/-!
# Which decoders are plain

For each decoder that is made of reads alone one lemma that says so. What is left are those that
take a part of the input, report something, or know of a length: instruction lists, method bodies,
attributes, and the pool and the class file themselves.
-/

set_option autoImplicit false
set_option relaxedAutoImplicit false

namespace ClassFormat

open Decoder

/-! ### Constants -/

theorem Constant.decodePayload_plain (kind : Kind) : Plain (decodePayload kind) := by
  cases kind with
  | utf8 => exact .bind .u2 fun length ↦ .bind (.take length.toNat) fun _ ↦ .pure _
  | integer | float => exact .bind .u4 fun _ ↦ .pure _
  | long | double => exact .bind .u4 fun _ ↦ .bind .u4 fun _ ↦ .pure _
  | methodHandle => exact .bind .u1 fun _ ↦ .bind .u2 fun _ ↦ .pure _
  | classRef | string | methodType | moduleName | packageName => exact .bind .u2 fun _ ↦ .pure _
  | _ => exact .bind .u2 fun _ ↦ .bind .u2 fun _ ↦ .pure _

theorem Constant.decode_plain : Plain Constant.decode := by
  refine .tagged fun place place' tag ↦ ?_
  cases Kind.ofTag? tag with
  | some kind => exact .known (decodePayload_plain kind)
  | none => exact .unknown rfl

/-! ### Frames and annotations -/

theorem VerificationType.decode_plain : Plain VerificationType.decode := by
  refine .tagged fun place place' tag ↦ ?_
  split
  case h_8 | h_9 => exact .known (.bind .u2 fun _ ↦ .pure _)
  case h_10 => exact .unknown rfl
  all_goals exact .known (.pure _)

theorem StackMapFrame.decode_plain : Plain StackMapFrame.decode := by
  have htype := VerificationType.decode_plain
  refine .tagged fun place place' tag ↦ ?_
  split_ifs
  · exact .known (.pure _)
  · exact .known (.bind htype fun _ ↦ .pure _)
  · exact .unknown rfl
  · exact .known (.bind .u2 fun _ ↦ .bind htype fun _ ↦ .pure _)
  · exact .known (.bind .u2 fun _ ↦ .pure _)
  · exact .known (.bind .u2 fun _ ↦ .pure _)
  · exact .known (.bind .u2 fun _ ↦ .bind (.times htype _) fun _ ↦ .pure _)
  · exact .known
      (.bind .u2 fun _ ↦ .bind (.counted htype) fun _ ↦ .bind (.counted htype) fun _ ↦ .pure _)

theorem Element.decode_plain {Value : Type} {value : Decoder Value} (hvalue : Plain value) :
    Plain (Element.decode value) :=
  .bind .u2 fun _ ↦ .bind hvalue fun _ ↦ .pure _

theorem ElementValue.decodeWithin_plain (levels : Nat) : Plain (decodeWithin levels) := by
  induction levels with
  | zero => exact .nesting maxNesting
  | succ levels ih =>
    refine .tagged fun place place' code ↦ ?_
    cases ElementTag.ofCode? code with
    | some tag => exact .known (.bind .u2 fun _ ↦ .pure _)
    | none =>
      dsimp only
      split
      · exact .known (.bind .u2 fun _ ↦ .bind .u2 fun _ ↦ .pure _)
      · exact .known (.bind .u2 fun _ ↦ .pure _)
      · exact .known (.bind .u2 fun _ ↦ .bind (.counted (Element.decode_plain ih)) fun _ ↦ .pure _)
      · exact .known (.bind (.counted ih) fun _ ↦ .pure _)
      · exact .unknown rfl

theorem ElementValue.decode_plain : Plain ElementValue.decode :=
  decodeWithin_plain (maxNesting + 1)

theorem Annotation.decode_plain : Plain Annotation.decode :=
  .bind .u2 fun _ ↦ .bind (.counted (Element.decode_plain ElementValue.decode_plain)) fun _ ↦
    .pure _

theorem Annotation.decodeParameter_plain : Plain Annotation.decodeParameter :=
  .counted Annotation.decode_plain

/-! ### Instructions -/

theorem Operands.decodeTarget_straight (address : Nat) : Straight (decodeTarget address) :=
  .bind .s2 fun _ ↦ .pure _

theorem Operands.decodeWideTarget_straight (address : Nat) : Straight (decodeWideTarget address) :=
  .bind .s4 fun _ ↦ .pure _

theorem Operands.decodeArrayType_plain : Plain decodeArrayType := by
  refine .tagged fun place place' code ↦ ?_
  cases ArrayType.ofCode? code with
  | some element => exact .known (.pure element)
  | none => exact .unknown rfl

theorem Operands.decodeWide_straight : Straight decodeWide := by
  refine .bind .u1 fun opcode ↦ .bind .u2 fun index ↦ ?_
  split_ifs
  · exact .bind .s2 fun _ ↦ .pure _
  · exact .pure _

/-- Only the element type of an array is refused. -/
theorem Operands.decode_straight (address : Nat) {form : Form} (hform : form ≠ .arrayType) :
    Straight (decode address form) := by
  have htarget := decodeWideTarget_straight address
  cases form with
  | plain => exact .pure _
  | signedByte => exact .bind .s1 fun _ ↦ .pure _
  | signedShort => exact .bind .s2 fun _ ↦ .pure _
  | byteIndex => exact .bind .u1 fun _ ↦ .pure _
  | index => exact .bind .u2 fun _ ↦ .pure _
  | increment => exact .bind .u1 fun _ ↦ .bind .s1 fun _ ↦ .pure _
  | branch => exact .bind (decodeTarget_straight address) fun _ ↦ .pure _
  | wideBranch => exact .bind htarget fun _ ↦ .pure _
  | interfaceCall =>
    exact .bind .u2 fun _ ↦ .bind .u1 fun _ ↦ .bind (.skip 1) fun _ ↦ .pure _
  | dynamicCall => exact .bind .u2 fun _ ↦ .bind (.skip 2) fun _ ↦ .pure _
  | arrayType => exact absurd rfl hform
  | multiArray => exact .bind .u2 fun _ ↦ .bind .u1 fun _ ↦ .pure _
  | tableSwitch =>
    exact .bind (.skip _) fun _ ↦ .bind htarget fun _ ↦ .bind .s4 fun _ ↦ .bind .s4 fun _ ↦
      .bind (.times htarget _) fun _ ↦ .pure _
  | lookupSwitch =>
    exact .bind (.skip _) fun _ ↦ .bind htarget fun _ ↦ .bind .u4 fun count ↦
      .bind (.times (.bind .s4 fun _ ↦ .bind htarget fun _ ↦ .pure _) count.toNat) fun _ ↦ .pure _
  | wide => exact .bind decodeWide_straight fun _ ↦ .pure _

theorem Operands.decode_plain (address : Nat) (form : Form) : Plain (decode address form) := by
  by_cases hform : form = .arrayType
  · subst hform
    exact .bind decodeArrayType_plain fun _ ↦ .pure _
  · exact (decode_straight address hform).plain

theorem Opcode.decode_plain : Plain Opcode.decode := by
  refine .tagged fun place place' byte ↦ ?_
  cases Opcode.ofByte? byte with
  | some opcode => exact .known (.pure opcode)
  | none => exact .unknown rfl

/-! ### Attributes -/

theorem ExceptionHandler.decode_plain : Plain ExceptionHandler.decode :=
  .bind .u2 fun _ ↦ .bind .u2 fun _ ↦ .bind .u2 fun _ ↦ .bind .u2 fun _ ↦ .pure _

theorem InnerClass.decode_plain : Plain InnerClass.decode :=
  .bind .u2 fun _ ↦ .bind .u2 fun _ ↦ .bind .u2 fun _ ↦ .bind .u2 fun _ ↦ .pure _

theorem LineNumber.decode_plain : Plain LineNumber.decode :=
  .bind .u2 fun _ ↦ .bind .u2 fun _ ↦ .pure _

theorem LocalVariable.decode_plain : Plain LocalVariable.decode :=
  .bind .u2 fun _ ↦ .bind .u2 fun _ ↦ .bind .u2 fun _ ↦ .bind .u2 fun _ ↦ .bind .u2 fun _ ↦ .pure _

theorem BootstrapMethod.decode_plain : Plain BootstrapMethod.decode :=
  .bind .u2 fun _ ↦ .bind (.counted .u2) fun _ ↦ .pure _

theorem MethodParameter.decode_plain : Plain MethodParameter.decode :=
  .bind .u2 fun _ ↦ .bind .u2 fun _ ↦ .pure _

/-- Every body is plain but that of a method, which holds parts of the input itself. -/
theorem Attribute.decodeBody_plain (nested : Decoder Attribute) {kind : Kind}
    (hkind : kind ≠ .code) : Plain (decodeBody nested kind) := by
  have hannotation := Annotation.decode_plain
  have hparameter := Annotation.decodeParameter_plain
  have hvalue := ElementValue.decode_plain
  cases kind with
  | code => exact absurd rfl hkind
  | constantValue | signature | sourceFile | nestHost => exact .bind .u2 fun _ ↦ .pure _
  | synthetic | deprecated => exact .pure _
  | exceptions | nestMembers | permittedSubclasses => exact .bind (.counted .u2) fun _ ↦ .pure _
  | enclosingMethod => exact .bind .u2 fun _ ↦ .bind .u2 fun _ ↦ .pure _
  | stackMapTable => exact .bind (.counted StackMapFrame.decode_plain) fun _ ↦ .pure _
  | bootstrapMethods => exact .bind (.counted BootstrapMethod.decode_plain) fun _ ↦ .pure _
  | innerClasses => exact .bind (.counted InnerClass.decode_plain) fun _ ↦ .pure _
  | visibleAnnotations => exact .bind (.counted hannotation) fun _ ↦ .pure _
  | invisibleAnnotations => exact .bind (.counted (Element.decode_plain hvalue)) fun _ ↦ .pure _
  | visibleParameterAnnotations | invisibleParameterAnnotations =>
    exact .bind (.shortCounted hparameter) fun _ ↦ .pure _
  | annotationDefault => exact .bind hvalue fun _ ↦ .pure _
  | methodParameters => exact .bind (.shortCounted MethodParameter.decode_plain) fun _ ↦ .pure _
  | sourceDebugExtension =>
    exact .bind .u4 fun length ↦ .bind (.take length.toNat) fun _ ↦ .pure _
  | lineNumberTable => exact .bind (.counted LineNumber.decode_plain) fun _ ↦ .pure _
  | localVariableTable | localVariableTypeTable =>
    exact .bind (.counted LocalVariable.decode_plain) fun _ ↦ .pure _

end ClassFormat
