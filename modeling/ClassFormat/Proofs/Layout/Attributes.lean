import ClassFormat.Proofs.AttributeFrame
import ClassFormat.Proofs.Layout.Annotations
import ClassFormat.Proofs.Layout.Frames
import ClassFormat.Proofs.Layout.Instructions

/-!
# The layout of attributes

An attribute is written as the index of a text that is its name, the length of its body, and the
body. Any index of such a text will do. The body of a method holds attributes again, so what can be
written in a body is made from what can be written one level deeper. `Attribute.decode_reads` says
that an attribute is read exactly if it can be written and does not lie too deep.
-/

set_option autoImplicit false
set_option relaxedAutoImplicit false

namespace ClassFormat

open Decoder

variable {depth : Nat}

/-! ### Entries of tables -/

/-- The bytes of a handler. -/
def ExceptionHandler.toBytes (handler : ExceptionHandler) : List UInt8 :=
  BigEndian.ofUInt16 handler.startPc ++ BigEndian.ofUInt16 handler.endPc ++
    BigEndian.ofUInt16 handler.handlerPc ++ BigEndian.ofUInt16 handler.catchType

/-- The bytes of a class that is named within a class. -/
def InnerClass.toBytes (item : InnerClass) : List UInt8 :=
  BigEndian.ofUInt16 item.innerIndex ++ BigEndian.ofUInt16 item.outerIndex ++
    BigEndian.ofUInt16 item.nameIndex ++ BigEndian.ofUInt16 item.accessFlags.bits

/-- The bytes of the place where a line begins. -/
def LineNumber.toBytes (item : LineNumber) : List UInt8 :=
  BigEndian.ofUInt16 item.startPc ++ BigEndian.ofUInt16 item.line

/-- The bytes of a local variable. -/
def LocalVariable.toBytes (item : LocalVariable) : List UInt8 :=
  BigEndian.ofUInt16 item.startPc ++ BigEndian.ofUInt16 item.length ++
    BigEndian.ofUInt16 item.nameIndex ++ BigEndian.ofUInt16 item.typeIndex ++
      BigEndian.ofUInt16 item.index

/-- The bytes of a bootstrap method. -/
def BootstrapMethod.toBytes (method : BootstrapMethod) : List UInt8 :=
  BigEndian.ofUInt16 method.referenceIndex ++ withCount BigEndian.ofUInt16 method.arguments

/-- The bytes of a parameter of a method. -/
def MethodParameter.toBytes (parameter : MethodParameter) : List UInt8 :=
  BigEndian.ofUInt16 parameter.nameIndex ++ BigEndian.ofUInt16 parameter.accessFlags.bits

theorem ExceptionHandler.decode_reads :
    Reads depth ExceptionHandler.decode fun handler ↦ exactly handler.toBytes :=
  (Reads.u2.bind fun _ ↦ Reads.u2.bind fun _ ↦ Reads.u2.bind fun _ ↦ Reads.u2.bind fun _ ↦
    .pure _).congr fun handler word ↦ by
      obtain ⟨startPc, endPc, handlerPc, catchType⟩ := handler
      simp [toBytes, Language.mem_iSup]

theorem InnerClass.decode_reads :
    Reads depth InnerClass.decode fun item ↦ exactly item.toBytes :=
  (Reads.u2.bind fun _ ↦ Reads.u2.bind fun _ ↦ Reads.u2.bind fun _ ↦ Reads.u2.bind fun _ ↦
    .pure _).congr fun item word ↦ by
      obtain ⟨innerIndex, outerIndex, nameIndex, ⟨bits⟩⟩ := item
      simp [toBytes, Language.mem_iSup]

theorem LineNumber.decode_reads :
    Reads depth LineNumber.decode fun item ↦ exactly item.toBytes :=
  (Reads.u2.bind fun _ ↦ Reads.u2.bind fun _ ↦ .pure _).congr fun item word ↦ by
    obtain ⟨startPc, line⟩ := item
    simp [toBytes, Language.mem_iSup]

theorem LocalVariable.decode_reads :
    Reads depth LocalVariable.decode fun item ↦ exactly item.toBytes :=
  (Reads.u2.bind fun _ ↦ Reads.u2.bind fun _ ↦ Reads.u2.bind fun _ ↦ Reads.u2.bind fun _ ↦
    Reads.u2.bind fun _ ↦ .pure _).congr fun item word ↦ by
      obtain ⟨startPc, length, nameIndex, typeIndex, index⟩ := item
      simp [toBytes, Language.mem_iSup]

theorem BootstrapMethod.decode_reads :
    Reads depth BootstrapMethod.decode fun method ↦
      provided (method.arguments.length < 65536) (exactly method.toBytes) :=
  (Reads.u2.bind fun _ ↦ Reads.u2.counted.bind fun _ ↦ .pure _).congr fun method word ↦ by
    obtain ⟨referenceIndex, arguments⟩ := method
    simp [toBytes, withCount, sequence_exactly, Language.mem_iSup]

theorem MethodParameter.decode_reads :
    Reads depth MethodParameter.decode fun parameter ↦ exactly parameter.toBytes :=
  (Reads.u2.bind fun _ ↦ Reads.u2.bind fun _ ↦ .pure _).congr fun parameter word ↦ by
    obtain ⟨nameIndex, ⟨bits⟩⟩ := parameter
    simp [toBytes, Language.mem_iSup]

/-! ### Attributes -/

namespace Attribute

/-- How an attribute is written whose name and body are given. Its name stands in the pool, and a
body that is too long for a length of four bytes cannot be written. -/
def framed (pool : ConstantPool) (name : List UInt8) (body : Language UInt8) : Language UInt8 :=
  words fun word ↦ ∃ nameIndex length, ∃ bytes ∈ body, pool.utf8 nameIndex.toNat = .ok name ∧
    bytes.length = length.toNat ∧ word = header nameIndex length ++ bytes

mutual

/-- How the body of an attribute is written. -/
def bodyLayout (pool : ConstantPool) : Attribute → Language UInt8
  | constantValue index | signature index | sourceFile index | nestHost index =>
    exactly (BigEndian.ofUInt16 index)
  | code body => codeLayout pool body
  | stackMapTable frames => exactly (withCount StackMapFrame.toBytes frames)
  | exceptions classes | nestMembers classes | permittedSubclasses classes =>
    exactly (withCount BigEndian.ofUInt16 classes)
  | bootstrapMethods methods => exactly (withCount BootstrapMethod.toBytes methods)
  | innerClasses classes => exactly (withCount InnerClass.toBytes classes)
  | enclosingMethod classIndex methodIndex =>
    exactly (BigEndian.ofUInt16 classIndex ++ BigEndian.ofUInt16 methodIndex)
  | synthetic | deprecated => exactly []
  | visibleAnnotations annotations => exactly (withCount Annotation.toBytes annotations)
  | invisibleAnnotations elements =>
    exactly (withCount (Element.toBytes ElementValue.toBytes) elements)
  | visibleParameterAnnotations parameters | invisibleParameterAnnotations parameters =>
    exactly (withShortCount (withCount Annotation.toBytes) parameters)
  | annotationDefault value => exactly value.toBytes
  | methodParameters parameters => exactly (withShortCount MethodParameter.toBytes parameters)
  | sourceDebugExtension bytes => exactly (BigEndian.ofNat 4 bytes.length ++ bytes)
  | lineNumberTable lines => exactly (withCount LineNumber.toBytes lines)
  | localVariableTable entries | localVariableTypeTable entries =>
    exactly (withCount LocalVariable.toBytes entries)

/-- How the body of a method is written. -/
def codeLayout (pool : ConstantPool) : CodeBody Attribute → Language UInt8
  | ⟨maxStack, maxLocals, instructions, handlers, attributes⟩ =>
    exactly (BigEndian.ofUInt16 maxStack ++ BigEndian.ofUInt16 maxLocals ++
      BigEndian.ofNat 4 instructions.size) * (instructions.layout *
        (exactly (withCount ExceptionHandler.toBytes handlers ++
          BigEndian.ofNat 2 attributes.length) * listLayout pool attributes))

/-- How several attributes are written one behind the other. -/
def listLayout (pool : ConstantPool) : List Attribute → Language UInt8
  | [] => exactly []
  | item :: items =>
    framed pool item.kind.nameBytes (bodyLayout pool item) * listLayout pool items

end

/-- How an attribute is written. -/
def layout (pool : ConstantPool) (item : Attribute) : Language UInt8 :=
  framed pool item.kind.nameBytes (item.bodyLayout pool)

/-- Whether an attribute can be written and lies at most so many levels deep: what it holds can be
written, its counts and lengths take their bytes, and the attributes of a method body have one level
less. -/
def FitsWithin : (levels : Nat) → Attribute → Prop
  | 0, _ => False
  | levels + 1, code body =>
    body.instructions.WellFormed ∧ body.instructions.size < 0x100000000 ∧
      body.handlers.length < 65536 ∧ body.attributes.length < 65536 ∧
        ∀ item ∈ body.attributes, FitsWithin levels item
  | _ + 1, stackMapTable frames => frames.length < 65536 ∧ ∀ frame ∈ frames, frame.Fits
  | _ + 1, exceptions classes | _ + 1, nestMembers classes | _ + 1, permittedSubclasses classes =>
    classes.length < 65536
  | _ + 1, bootstrapMethods methods =>
    methods.length < 65536 ∧ ∀ method ∈ methods, method.arguments.length < 65536
  | _ + 1, innerClasses classes => classes.length < 65536
  | _ + 1, visibleAnnotations annotations =>
    annotations.length < 65536 ∧ ∀ item ∈ annotations, item.Fits
  | _ + 1, invisibleAnnotations elements =>
    elements.length < 65536 ∧ ∀ element ∈ elements, element.value.Fits
  | _ + 1, visibleParameterAnnotations parameters
  | _ + 1, invisibleParameterAnnotations parameters =>
    parameters.length < 256 ∧ ∀ annotations ∈ parameters,
      annotations.length < 65536 ∧ ∀ item ∈ annotations, item.Fits
  | _ + 1, annotationDefault value => value.Fits
  | _ + 1, methodParameters parameters => parameters.length < 256
  | _ + 1, sourceDebugExtension bytes => bytes.length < 0x100000000
  | _ + 1, lineNumberTable lines => lines.length < 65536
  | _ + 1, localVariableTable entries | _ + 1, localVariableTypeTable entries =>
    entries.length < 65536
  | _ + 1, _ => True

theorem listLayout_eq (pool : ConstantPool) (items : List Attribute) :
    listLayout pool items = sequence (layout pool) items := by
  induction items with
  | nil => rfl
  | cons item items ih => rw [listLayout, ih, sequence, layout]

/-! ### Reading attributes -/

/-- The instructions of a method body take all of the bytes that are declared for them. -/
theorem instructions_reads (length : UInt32) (overrun : Nat → DecodeError.Cause) :
    Reads depth (bounded length.toNat overrun (InstructionList.decode length)) fun list ↦
      provided (list.size = length.toNat) (provided list.WellFormed list.layout) := by
  refine ((InstructionList.decode_reads length).bounded length.toNat overrun).congr
    fun list bytes ↦ ?_
  simp only [mem_words, mem_provided]
  constructor
  · rintro ⟨hlength, word, ⟨⟨hlist, hsize⟩, hword⟩, hbegins⟩
    have hcount := InstructionList.length_of_mem_layout hword
    obtain rfl := hbegins.eq_of_length (by omega)
    exact ⟨hsize, hlist, hword⟩
  · rintro ⟨hsize, hlist, hword⟩
    have hcount := InstructionList.length_of_mem_layout hword
    exact ⟨by omega, bytes, ⟨⟨hlist, hsize⟩, hword⟩, List.prefix_rfl⟩

variable {pool : ConstantPool} {levels : Nat} {nested : Decoder Attribute}

theorem decodeCode_reads
    (hnested : Reads depth nested fun item ↦
      provided (item.FitsWithin levels) (item.layout pool)) :
    Reads depth (decodeCode nested) fun body ↦
      provided ((code body).FitsWithin (levels + 1)) (codeLayout pool body) := by
  refine (Reads.u2.bind fun maxStack ↦ Reads.u2.bind fun maxLocals ↦
    .u4_bind_sized_bind (fun length ↦ instructions_reads length (.codeLength length))
      fun _ instructions ↦ ExceptionHandler.decode_reads.counted.bind fun handlers ↦
    hnested.counted.bind fun attributes ↦
    .pure (CodeBody.mk maxStack maxLocals instructions handlers attributes)).congr
      fun body word ↦ ?_
  obtain ⟨maxStack, maxLocals, instructions, handlers, attributes⟩ := body
  simp only [FitsWithin, codeLayout, listLayout_eq, sequence_provided, sequence_exactly, withCount,
    Language.mem_iSup, Language.mem_mul, mem_exactly, mem_provided, CodeBody.mk.injEq,
    List.append_assoc, List.append_nil, and_true, ↓existsAndEq, exists_eq_left,
    exists_eq_right_right, exists_and_left, exists_exists_and_eq_and,
    exists_exists_and_exists_and_eq_and]
  constructor
  · rintro ⟨bytes, ⟨hsize, hlist, hbytes⟩, rest, ⟨hhandlers, hcount, hfits, hrest⟩, hword⟩
    exact ⟨⟨hlist, hsize, hhandlers, hcount, hfits⟩, bytes, hbytes, rest, hrest, hword⟩
  · rintro ⟨⟨hlist, hsize, hhandlers, hcount, hfits⟩, bytes, hbytes, rest, hrest, hword⟩
    exact ⟨bytes, ⟨hsize, hlist, hbytes⟩, rest, ⟨hhandlers, hcount, hfits, hrest⟩, hword⟩

theorem decodeBody_reads
    (hnested : Reads depth nested fun item ↦
      provided (item.FitsWithin levels) (item.layout pool)) (kind : Kind) :
    Reads depth (decodeBody nested kind) fun item ↦ provided (item.kind = kind)
      (provided (item.FitsWithin (levels + 1)) (item.bodyLayout pool)) := by
  refine Reads.of_kind (decodeBody_yields nested) (fun item ↦ ?_) kind
  cases item with
  | constantValue _ | signature _ | sourceFile _ | nestHost _ =>
    refine ⟨_, Reads.u2.bind fun index ↦ .pure _, fun word ↦ ?_⟩
    simp [FitsWithin, bodyLayout, Language.mem_iSup]
  | code body =>
    refine ⟨_, (decodeCode_reads hnested).bind fun body ↦ .pure _, fun word ↦ ?_⟩
    simp [bodyLayout, Language.mem_iSup]
  | stackMapTable _ =>
    refine ⟨_, StackMapFrame.decode_reads.counted_exactly.bind fun _ ↦ .pure _, fun word ↦ ?_⟩
    simp [FitsWithin, bodyLayout, Language.mem_iSup]
  | exceptions _ | nestMembers _ | permittedSubclasses _ =>
    refine ⟨_, Reads.u2.counted.bind fun _ ↦ .pure _, fun word ↦ ?_⟩
    simp [FitsWithin, bodyLayout, sequence_exactly, withCount, Language.mem_iSup]
  | bootstrapMethods _ =>
    refine ⟨_, BootstrapMethod.decode_reads.counted_exactly.bind fun _ ↦ .pure _, fun word ↦ ?_⟩
    simp [FitsWithin, bodyLayout, Language.mem_iSup]
  | innerClasses _ =>
    refine ⟨_, InnerClass.decode_reads.counted.bind fun _ ↦ .pure _, fun word ↦ ?_⟩
    simp [FitsWithin, bodyLayout, sequence_exactly, withCount, Language.mem_iSup]
  | enclosingMethod _ _ =>
    refine ⟨_, Reads.u2.bind fun _ ↦ Reads.u2.bind fun _ ↦ .pure _, fun word ↦ ?_⟩
    simp [FitsWithin, bodyLayout, Language.mem_iSup]
  | synthetic | deprecated =>
    exact ⟨_, .pure _, fun word ↦ by simp [FitsWithin, bodyLayout]⟩
  | visibleAnnotations _ =>
    refine ⟨_, Annotation.decode_reads.counted_exactly.bind fun _ ↦ .pure _, fun word ↦ ?_⟩
    simp [FitsWithin, bodyLayout, Language.mem_iSup]
  | invisibleAnnotations _ =>
    refine ⟨_, (Element.decode_reads ElementValue.decode_reads).counted_exactly.bind fun _ ↦
      .pure _, fun word ↦ ?_⟩
    simp [FitsWithin, bodyLayout, Language.mem_iSup]
  | visibleParameterAnnotations _ | invisibleParameterAnnotations _ =>
    refine ⟨_, Annotation.decode_reads.counted_exactly.shortCounted_exactly.bind fun _ ↦ .pure _,
      fun word ↦ ?_⟩
    simp [FitsWithin, bodyLayout, Language.mem_iSup]
  | annotationDefault _ =>
    refine ⟨_, ElementValue.decode_reads.bind fun _ ↦ .pure _, fun word ↦ ?_⟩
    simp [FitsWithin, bodyLayout, Language.mem_iSup]
  | methodParameters _ =>
    refine ⟨_, MethodParameter.decode_reads.shortCounted.bind fun _ ↦ .pure _, fun word ↦ ?_⟩
    simp [FitsWithin, bodyLayout, sequence_exactly, withShortCount, Language.mem_iSup]
  | sourceDebugExtension _ =>
    refine ⟨_, .u4_bind_sized_bind (fun length ↦ .take length.toNat) fun _ _ ↦ .pure _,
      fun word ↦ ?_⟩
    simp [FitsWithin, bodyLayout, Language.mem_iSup]
  | lineNumberTable _ =>
    refine ⟨_, LineNumber.decode_reads.counted.bind fun _ ↦ .pure _, fun word ↦ ?_⟩
    simp [FitsWithin, bodyLayout, sequence_exactly, withCount, Language.mem_iSup]
  | localVariableTable _ | localVariableTypeTable _ =>
    refine ⟨_, LocalVariable.decode_reads.counted.bind fun _ ↦ .pure _, fun word ↦ ?_⟩
    simp [FitsWithin, bodyLayout, sequence_exactly, withCount, Language.mem_iSup]

/-- The body of an attribute takes all of the bytes that are declared for it. -/
theorem decodeFramed_reads
    (hnested : Reads (depth + 1) nested fun item ↦
      provided (item.FitsWithin levels) (item.layout pool))
    (start : Nat) (name : List UInt8) (length : UInt32) :
    Reads depth (decodeFramed nested start name length) fun item ↦ words fun word ↦
      name = item.kind.nameBytes ∧ word.length = length.toNat ∧
        item.FitsWithin (levels + 1) ∧ word ∈ item.bodyLayout pool := by
  intro state item behind hdepth
  constructor
  · rintro ⟨log, hrun⟩
    obtain ⟨kind, bytes, inner, rfl, hbytes, hbegins, hbody, hleft, hafter⟩ :=
      decodeFramed_eq_ok hrun
    cases hafter
    obtain ⟨word, ⟨rfl, hfits, hword⟩, hwithin, hcursor⟩ :=
      (decodeBody_reads hnested kind _ item inner.cursor (by simp [hdepth])).mp ⟨_, hbody⟩
    have hcount : bytes.length - word.length = 0 := by
      simpa [hcursor, Cursor.remaining] using hleft
    obtain rfl := hwithin.eq_of_length_le (Nat.sub_eq_zero_iff_le.mp hcount)
    exact ⟨word, ⟨rfl, hbytes, hfits, hword⟩, hbegins, by rw [hbytes]⟩
  · rintro ⟨word, ⟨rfl, hlength, hfits, hword⟩, hbegins, rfl⟩
    obtain ⟨log, hbody⟩ := (decodeBody_reads hnested item.kind
      ⟨state.cursor.window word, state.log.push (.attributeBody item.kind.name length start)⟩
      item _ (by simp [hdepth])).mpr ⟨word, ⟨rfl, hfits, hword⟩, List.prefix_rfl, rfl⟩
    refine ⟨log, ?_⟩
    rw [decodeFramed_nameBytes hlength hbegins, hbody]
    simp [Cursor.remaining, hlength]

theorem decodeWithin_reads (pool : ConstantPool) (levels : Nat) :
    Reads depth (decodeWithin pool levels) fun item ↦
      provided (item.FitsWithin levels) (item.layout pool) := by
  induction levels generalizing depth with
  | zero => exact (Reads.fail _).congr fun item word ↦ by simp [FitsWithin]
  | succ levels ih =>
    refine .offset_bind fun start ↦ (Reads.u2.bind fun nameIndex ↦ Reads.u4.bind fun length ↦
      (Reads.resolve start _).bind fun name ↦ decodeFramed_reads ih start name length).congr
      fun item word ↦ ?_
    simp only [Language.mem_iSup, mem_exactly_mul, mem_provided_mul, mem_words, mem_provided,
      layout, framed]
    constructor
    · rintro ⟨nameIndex, _, ⟨length, _, ⟨_, hname, bytes, ⟨rfl, hlength, hfits, hbytes⟩, rfl⟩,
        rfl⟩, rfl⟩
      exact ⟨hfits, nameIndex, length, _, hbytes, hname, hlength, by simp [header]⟩
    · rintro ⟨hfits, nameIndex, length, bytes, hbytes, hname, hlength, rfl⟩
      exact ⟨nameIndex, _, ⟨length, _, ⟨_, hname, bytes, ⟨rfl, hlength, hfits, hbytes⟩, rfl⟩,
        rfl⟩, by simp [header]⟩

theorem decode_reads (pool : ConstantPool) :
    Reads depth (decode pool) fun item ↦
      provided (item.FitsWithin (maxNesting + 1 - depth)) (item.layout pool) :=
  .depth_bind (decodeWithin_reads pool _)

end Attribute

end ClassFormat
