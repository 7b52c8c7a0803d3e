import ClassFormat.StackMap
import ClassFormat.Proofs.Layout
import Mathlib.Tactic.SplitIfs

/-!
# The layout of stack map frames

The first byte of a frame says of which family it is and, for the families with room for it, the
distance from the previous frame or a number of local variables. `StackMapFrame.decode_reads` says
that reading a frame is the inverse of writing it.
-/

set_option autoImplicit false
set_option relaxedAutoImplicit false

namespace ClassFormat

open Decoder

variable {depth : Nat}

namespace VerificationType

/-- The byte that a verification type begins with. -/
def tag : VerificationType → UInt8
  | top => 0
  | integer => 1
  | float => 2
  | double => 3
  | long => 4
  | null => 5
  | uninitializedThis => 6
  | object _ => 7
  | uninitialized _ => 8

/-- What is written behind the tag. -/
def payload : VerificationType → List UInt8
  | object index | uninitialized index => BigEndian.ofUInt16 index
  | _ => []

/-- The bytes of a verification type. -/
def toBytes (item : VerificationType) : List UInt8 :=
  item.tag :: item.payload

theorem decode_reads :
    Reads depth VerificationType.decode fun item ↦ exactly item.toBytes := by
  refine .offset_bind fun start ↦ (Reads.tagged_of_kind tag (fun item ↦ exactly item.payload)
    ?_ fun item ↦ ?_).congr fun item word ↦ by simp [toBytes]
  · intro byte
    have htag (number : Nat) (hnumber : byte.toNat = number) : UInt8.ofNat number = byte := by
      rw [← hnumber, UInt8.ofNat_toNat]
    split
    case h_8 hnumber | h_9 hnumber => exact .bind fun _ ↦ .pure (htag _ hnumber)
    case h_10 => exact .failAt start _
    all_goals exact .pure (htag _ ‹_›)
  · cases item with
    | object _ | uninitialized _ =>
      exact ⟨_, Reads.u2.bind fun index ↦ .pure _, fun word ↦ by simp [payload, Language.mem_iSup]⟩
    | _ => exact ⟨_, .pure _, fun word ↦ by simp [payload]⟩

end VerificationType

namespace StackMapFrame

/-- The number that a frame begins with. -/
def tag : StackMapFrame → Nat
  | same delta => delta.toNat
  | sameWithItem delta _ => 64 + delta.toNat
  | sameWithItemExtended .. => 247
  | chop _ absent => 251 - absent.toNat
  | sameExtended _ => 251
  | append _ locals => 251 + locals.length
  | full .. => 255

/-- What is written behind the tag. -/
def payload : StackMapFrame → List UInt8
  | same _ => []
  | sameWithItem _ item => item.toBytes
  | sameWithItemExtended delta item => BigEndian.ofUInt16 delta ++ item.toBytes
  | chop delta _ | sameExtended delta => BigEndian.ofUInt16 delta
  | append delta locals => BigEndian.ofUInt16 delta ++ locals.flatMap VerificationType.toBytes
  | full delta locals stack =>
    BigEndian.ofUInt16 delta ++ withCount VerificationType.toBytes locals ++
      withCount VerificationType.toBytes stack

/-- The bytes of a frame. -/
def toBytes (frame : StackMapFrame) : List UInt8 :=
  UInt8.ofNat frame.tag :: frame.payload

/-- Whether the frame can be written: what the tag has to say fits there. -/
def Fits : StackMapFrame → Prop
  | same delta | sameWithItem delta _ => delta.toNat < 64
  | chop _ absent => 1 ≤ absent.toNat ∧ absent.toNat ≤ 3
  | append _ locals => 1 ≤ locals.length ∧ locals.length ≤ 3
  | full _ locals stack => locals.length < 65536 ∧ stack.length < 65536
  | _ => True

theorem Fits.tag_lt {frame : StackMapFrame} (hfits : frame.Fits) : frame.tag < 256 := by
  cases frame <;> simp only [Fits] at hfits <;> simp only [tag] <;> omega

/-- The first byte of a frame that can be written has room for its number. -/
theorem mem_tagged_iff {frame : StackMapFrame} {byte : UInt8} {word : List UInt8} :
    word ∈ provided (UInt8.ofNat frame.tag = byte)
        (provided frame.Fits (exactly frame.payload)) ↔
      frame.tag = byte.toNat ∧ frame.Fits ∧ word = frame.payload := by
  have hsame (hfits : frame.Fits) : UInt8.ofNat frame.tag = byte ↔ frame.tag = byte.toNat := by
    rw [← UInt8.toNat_inj, UInt8.toNat_ofNat', Nat.mod_eq_of_lt hfits.tag_lt]
  simp only [mem_provided, mem_exactly]
  constructor
  · rintro ⟨htag, hfits, rfl⟩
    exact ⟨(hsame hfits).mp htag, hfits, rfl⟩
  · rintro ⟨htag, hfits, rfl⟩
    exact ⟨(hsame hfits).mpr htag, hfits, rfl⟩

theorem decode_reads :
    Reads depth StackMapFrame.decode fun frame ↦
      provided frame.Fits (exactly frame.toBytes) := by
  refine .offset_bind fun start ↦ (Reads.tagged (fun frame ↦ UInt8.ofNat frame.tag)
    (fun frame ↦ provided frame.Fits (exactly frame.payload)) fun byte ↦ ?_).congr
    fun frame word ↦ by simp [toBytes]
  suffices hnext : Reads depth _ fun frame : StackMapFrame ↦ words fun word ↦
      frame.tag = byte.toNat ∧ frame.Fits ∧ word = frame.payload from
    hnext.congr fun frame word ↦ mem_tagged_iff.symm
  have hbyte := byte.toNat_lt
  simp only [UInt8.lt_iff_toNat_lt, ← UInt8.toNat_inj, UInt8.reduceToNat]
  split_ifs with hsame hitem hunknown hitemExtended hchop hsameExtended happend
  · have hdelta (delta : UInt16) :
        delta = byte.toUInt16 ↔ delta.toNat = byte.toNat ∧ delta.toNat < 64 := by
      simp [← UInt16.toNat_inj]
      omega
    refine (Reads.pure _).congr fun frame word ↦ ?_
    cases frame <;> simp [tag, payload, Fits, hdelta] <;> grind
  · have hdelta (delta : UInt16) :
        delta = (byte - 64).toUInt16 ↔ 64 + delta.toNat = byte.toNat ∧ delta.toNat < 64 := by
      simp only [← UInt16.toNat_inj, UInt8.toNat_toUInt16, UInt8.toNat_sub, UInt8.reduceToNat]
      omega
    refine (VerificationType.decode_reads.bind fun item ↦ .pure _).congr fun frame word ↦ ?_
    cases frame <;>
      simp [tag, payload, Fits, hdelta, Language.mem_iSup, -UInt8.toUInt16_sub] <;> grind
  · refine (Reads.failAt start _).congr fun frame word ↦ ?_
    cases frame <;> simp [tag, Fits] <;> grind
  · refine (Reads.u2.bind fun delta ↦ VerificationType.decode_reads.bind fun item ↦ .pure _).congr
      fun frame word ↦ ?_
    cases frame <;> simp [tag, payload, Fits, hitemExtended, Language.mem_iSup] <;> grind
  · have habsent (absent : UInt8) :
        absent = 251 - byte ↔
          251 - absent.toNat = byte.toNat ∧ 1 ≤ absent.toNat ∧ absent.toNat ≤ 3 := by
      simp [← UInt8.toNat_inj, UInt8.toNat_sub]
      omega
    refine (Reads.u2.bind fun delta ↦ .pure _).congr fun frame word ↦ ?_
    cases frame <;> simp [tag, payload, Fits, habsent, Language.mem_iSup] <;> grind
  · refine (Reads.u2.bind fun delta ↦ .pure _).congr fun frame word ↦ ?_
    cases frame <;> simp [tag, payload, Fits, hsameExtended, Language.mem_iSup] <;> grind
  · have hcount (locals : List VerificationType) :
        locals.length = (byte - 251).toNat ↔
          251 + locals.length = byte.toNat ∧ 1 ≤ locals.length ∧ locals.length ≤ 3 := by
      simp [UInt8.toNat_sub]
      omega
    refine (Reads.u2.bind fun delta ↦
      (VerificationType.decode_reads.times (byte - 251).toNat).bind fun locals ↦ .pure _).congr
      fun frame word ↦ ?_
    cases frame <;>
      simp [tag, payload, Fits, hcount, sequence_exactly, Language.mem_iSup] <;> grind
  · refine (Reads.u2.bind fun delta ↦ VerificationType.decode_reads.counted.bind fun locals ↦
      VerificationType.decode_reads.counted.bind fun stack ↦ .pure _).congr fun frame word ↦ ?_
    cases frame <;>
      simp [tag, payload, Fits, sequence_exactly, withCount, Language.mem_iSup, mul_assoc] <;>
      grind

end StackMapFrame

end ClassFormat
