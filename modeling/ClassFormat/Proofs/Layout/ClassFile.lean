import ClassFormat.Proofs.Extension
import ClassFormat.Proofs.Layout.Attributes
import ClassFormat.Proofs.Layout.Constants

/-!
# The layout of class files

Members and class files are written part by part. The main statement is
`ClassFile.ofBytes_eq_ok_iff`: bytes are read as a class file exactly if the class file is well
formed and the bytes are one of the ways to write it. One liberty is left to the bytes that the
layout does not have: the count before a pool without constants may be zero.
-/

set_option autoImplicit false
set_option relaxedAutoImplicit false

namespace ClassFormat

open Decoder

variable {depth : Nat}

/-- A decoder that reads a layout reads bytes to their end exactly if they are a word. -/
theorem Decoder.Reads.answer_eq_ok_iff {α : Type} {item : Decoder α} {layout : α → Language UInt8}
    (hitem : Reads 0 item layout) {bytes : List UInt8} {value : α} :
    answer item bytes = (.ok value, bytes.length) ↔ bytes ∈ layout value := by
  have hreads := hitem (.start (.ofBytes bytes)) value
  unfold answer EStateM.run
  constructor
  · intro hanswer
    cases hrun : item (.start (.ofBytes bytes)) with
    | error error after =>
      rw [hrun] at hanswer
      cases hanswer
    | ok first after =>
      rw [hrun] at hanswer
      obtain ⟨rfl, hposition⟩ : first = value ∧ after.cursor.position = bytes.length := by
        simpa using hanswer
      obtain ⟨word, hword, hbegins, hcursor⟩ := (hreads after.cursor rfl).mp ⟨after.log, hrun⟩
      have hlength : word.length = bytes.length := by
        rw [← hposition, hcursor]
        simp [State.start, Cursor.ofBytes]
      obtain rfl := hbegins.eq_of_length hlength
      exact hword
  · intro hword
    obtain ⟨log, hrun⟩ := (hreads _ rfl).mpr ⟨bytes, hword, List.prefix_rfl, rfl⟩
    rw [hrun]
    simp [State.start, Cursor.ofBytes]

/-! ### Attributes and members -/

namespace Attributes

/-- How the attributes of a class file or of a member are written. -/
def layout (pool : ConstantPool) (attributes : Attributes) : Language UInt8 :=
  exactly (BigEndian.ofNat 2 attributes.length) * sequence (Attribute.layout pool) attributes

/-- Whether the attributes of a class file or of a member can be written and do not lie one within
the other too deep. -/
def Fits (attributes : Attributes) : Prop :=
  attributes.length < 65536 ∧
    ∀ item ∈ attributes, item.FitsWithin (Attribute.maxNesting + 1)

theorem decode_reads (pool : ConstantPool) :
    Reads 0 (Attributes.decode (some pool)) fun attributes ↦
      provided attributes.Fits (attributes.layout pool) :=
  (Attribute.decode_reads pool).counted.congr fun attributes word ↦ by
    simp [Fits, layout, sequence_provided, and_assoc]

end Attributes

namespace Member

variable {declared : Declared}

/-- How a member is written. -/
def layout (pool : ConstantPool) (member : Member declared) : Language UInt8 :=
  exactly (BigEndian.ofUInt16 member.accessFlags.bits ++ BigEndian.ofUInt16 member.nameIndex ++
    BigEndian.ofUInt16 member.descriptorIndex) * member.attributes.layout pool

theorem decode_reads (pool : ConstantPool) :
    Reads 0 (Member.decode (some pool)) fun member : Member declared ↦
      provided member.attributes.Fits (member.layout pool) := by
  refine (Reads.u2.bind fun bits ↦ Reads.u2.bind fun nameIndex ↦ Reads.u2.bind fun index ↦
    (Attributes.decode_reads pool).bind fun attributes ↦ .pure _).congr fun member word ↦ ?_
  obtain ⟨⟨bits⟩, nameIndex, descriptorIndex, attributes⟩ := member
  simp [layout, Language.mem_iSup, and_assoc]

/-- How several members are written. -/
def listLayout (pool : ConstantPool) (members : List (Member declared)) : Language UInt8 :=
  exactly (BigEndian.ofNat 2 members.length) * sequence (layout pool) members

end Member

/-! ### Class files -/

namespace ClassFile

/-- A class file is well formed if its pool is, its attributes and those of its members can be
written and do not lie too deep, and its counts take two bytes. -/
structure WellFormed (file : ClassFile) : Prop where
  pool : file.pool.WellFormed
  interfaces_lt : file.interfaces.length < 65536
  fields_lt : file.fields.length < 65536
  fields : ∀ field ∈ file.fields, field.attributes.Fits
  methods_lt : file.methods.length < 65536
  methods : ∀ method ∈ file.methods, method.attributes.Fits
  attributes : file.attributes.Fits

/-- How a class file is written whose pool begins with the given count. -/
def layoutCounting (count : UInt16) (file : ClassFile) : Language UInt8 :=
  exactly (BigEndian.ofUInt32 magic ++ BigEndian.ofUInt16 file.minorVersion ++
      BigEndian.ofUInt16 file.majorVersion ++ file.pool.toBytes count ++
      BigEndian.ofUInt16 file.accessFlags.bits ++ BigEndian.ofUInt16 file.thisClass ++
      BigEndian.ofUInt16 file.superClass ++ withCount BigEndian.ofUInt16 file.interfaces) *
    (Member.listLayout file.pool file.fields * (Member.listLayout file.pool file.methods *
      file.attributes.layout file.pool))

/-- How a class file is written. -/
def layout (file : ClassFile) : Language UInt8 :=
  layoutCounting (UInt16.ofNat file.pool.size) file

/-! ### Reading class files -/

theorem decodeMagic_reads :
    Reads depth decodeMagic fun _ ↦ exactly (BigEndian.ofUInt32 magic) := by
  have hnext (start : Nat) (found : UInt32) : Reads depth
      (if found = magic then return () else failAt start (.badMagic found)) fun _ ↦
      provided (found = magic) (exactly []) := by
    by_cases hfound : found = magic
    · rw [if_pos hfound]
      exact (Reads.pure ()).congr fun _ word ↦ by simp [hfound]
    · rw [if_neg hfound]
      exact (Reads.failAt start _).congr fun _ word ↦ by simp [hfound]
  refine .offset_bind fun start ↦ (Reads.u4.bind (hnext start)).congr fun _ word ↦ ?_
  simp [Language.mem_iSup]

theorem decode_reads :
    Reads 0 ClassFile.decode fun file ↦ ⨆ count : UInt16,
      provided (file.WellFormed ∧ file.pool.Counts count) (file.layoutCounting count) := by
  refine (decodeMagic_reads.bind fun _ ↦ Reads.u2.bind fun minorVersion ↦
    Reads.u2.bind fun majorVersion ↦ .record_bind <| ConstantPool.decode_reads.bind fun pool ↦
    Reads.u2.bind fun bits ↦ Reads.u2.bind fun thisClass ↦ Reads.u2.bind fun superClass ↦
    .u2_bind_sized_bind (fun count ↦ Reads.u2.times count.toNat) fun interfaceCount interfaces ↦
    .u2_bind_sized_bind (fun count ↦ (Member.decode_reads pool).times count.toNat)
      fun fieldCount fields ↦
    .u2_bind_sized_bind (fun count ↦ (Member.decode_reads pool).times count.toNat)
      fun methodCount methods ↦
    .record_bind <| (Attributes.decode_reads pool).bind fun attributes ↦ .pure
      (ClassFile.mk minorVersion majorVersion pool ⟨bits⟩ thisClass superClass interfaces fields
        methods attributes)).congr fun file word ↦ ?_
  obtain ⟨minorVersion, majorVersion, pool, ⟨bits⟩, thisClass, superClass, interfaces, fields,
    methods, attributes⟩ := file
  simp only [layoutCounting, Member.listLayout, withCount, ConstantPool.toBytes, sequence_provided,
    sequence_exactly, Language.mem_iSup, Language.mem_mul, mem_exactly, mem_provided, mk.injEq,
    AccessFlags.mk.injEq, List.append_assoc, List.append_nil, and_true, ↓existsAndEq,
    exists_eq_left, exists_eq_right_right, exists_and_left, exists_exists_and_eq_and,
    exists_exists_and_exists_and_eq_and, exists_const]
  constructor
  · rintro ⟨count, left, middle, right, ⟨⟨hpool, hcounts⟩, hinterfaces,
      ⟨hfieldCount, hfields, hleft⟩, ⟨hmethodCount, hmethods, hmiddle⟩, hattributes, hright⟩, hword⟩
    exact ⟨count, ⟨⟨hpool, hinterfaces, hfieldCount, hfields, hmethodCount, hmethods, hattributes⟩,
      hcounts⟩, left, middle, right, ⟨hleft, hmiddle, hright⟩, hword⟩
  · rintro ⟨count, ⟨⟨hpool, hinterfaces, hfieldCount, hfields, hmethodCount, hmethods, hattributes⟩,
      hcounts⟩, left, middle, right, ⟨hleft, hmiddle, hright⟩, hword⟩
    exact ⟨count, left, middle, right, ⟨⟨hpool, hcounts⟩, hinterfaces,
      ⟨hfieldCount, hfields, hleft⟩, ⟨hmethodCount, hmethods, hmiddle⟩, hattributes, hright⟩, hword⟩

/-- The counts that a well-formed pool may stand behind are the number of its slots and, without
constants, zero. -/
theorem mem_layouts_iff {file : ClassFile} {word : List UInt8} :
    (∃ count, (file.WellFormed ∧ file.pool.Counts count) ∧ word ∈ file.layoutCounting count) ↔
      file.WellFormed ∧
        (word ∈ file.layout ∨ file.pool.size = 1 ∧ word ∈ file.layoutCounting 0) := by
  constructor
  · rintro ⟨count, ⟨hfile, hsize | ⟨rfl, hone⟩⟩, hword⟩
    · rw [← UInt16.ofNat_toNat (x := count), hsize] at hword
      exact ⟨hfile, .inl hword⟩
    · exact ⟨hfile, .inr ⟨hone, hword⟩⟩
  · rintro ⟨hfile, hword | ⟨hone, hword⟩⟩
    · have hsize : (UInt16.ofNat file.pool.size).toNat = file.pool.size :=
        Nat.mod_eq_of_lt hfile.pool.size_lt
      exact ⟨_, ⟨hfile, .inl hsize⟩, hword⟩
    · exact ⟨0, ⟨hfile, .inr ⟨rfl, hone⟩⟩, hword⟩

/-- Bytes are read as a class file exactly if the class file is well formed and the bytes are one of
the ways to write it, where the count before a pool without constants may also be zero. -/
theorem ofBytes_eq_ok_iff (bytes : List UInt8) (file : ClassFile) :
    (ofBytes bytes).1 = .ok file ↔ file.WellFormed ∧
      (bytes ∈ file.layout ∨ file.pool.size = 1 ∧ bytes ∈ file.layoutCounting 0) := by
  rw [ofBytes_fst_eq_ok_iff, decode_reads.answer_eq_ok_iff, Language.mem_iSup]
  exact mem_layouts_iff

end ClassFile

end ClassFormat
