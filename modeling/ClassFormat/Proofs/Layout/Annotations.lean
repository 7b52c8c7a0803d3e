import ClassFormat.Proofs.Kinds
import ClassFormat.Proofs.Layout

/-!
# The layout of annotations

A value begins with a letter that says what it is. Lists and annotations hold values again, so the
bytes of a value are made from those of the values inside it. `ElementValue.decodeWithin_reads` says
that reading is the inverse of writing for values that lie at most so many levels deep, and for
nothing else.
-/

set_option autoImplicit false
set_option relaxedAutoImplicit false

namespace ClassFormat

open Decoder

variable {depth : Nat}

/-! ### Elements -/

/-- The bytes of an element whose value is written as given. -/
def Element.toBytes {Value : Type} (bytes : Value → List UInt8) (element : Element Value) :
    List UInt8 :=
  BigEndian.ofUInt16 element.nameIndex ++ bytes element.value

theorem Element.decode_reads {Value : Type} {item : Decoder Value} {fits : Value → Prop}
    {bytes : Value → List UInt8}
    (hitem : Reads depth item fun value ↦ provided (fits value) (exactly (bytes value))) :
    Reads depth (Element.decode item) fun element ↦
      provided (fits element.value) (exactly (element.toBytes bytes)) := by
  refine (Reads.u2.bind fun index ↦ hitem.bind fun value ↦ .pure _).congr fun element word ↦ ?_
  obtain ⟨index, value⟩ := element
  simp [Element.toBytes, Language.mem_iSup]

/-! ### Values -/

namespace ElementValue

/-- The letter that a value begins with, as a byte. -/
def code : ElementValue → UInt8
  | constant tag _ => tag.code
  | enumConstant .. => UInt8.ofNat 'e'.toNat
  | classInfo _ => UInt8.ofNat 'c'.toNat
  | nested .. => UInt8.ofNat '@'.toNat
  | array _ => UInt8.ofNat '['.toNat

mutual

/-- What is written behind the letter. -/
def payload : ElementValue → List UInt8
  | constant _ index => BigEndian.ofUInt16 index
  | enumConstant typeIndex nameIndex =>
    BigEndian.ofUInt16 typeIndex ++ BigEndian.ofUInt16 nameIndex
  | classInfo index => BigEndian.ofUInt16 index
  | array values => BigEndian.ofNat 2 values.length ++ listPayload values
  | nested typeIndex elements =>
    BigEndian.ofUInt16 typeIndex ++ (BigEndian.ofNat 2 elements.length ++ elementsPayload elements)

/-- The bytes of the values of a list. -/
def listPayload : List ElementValue → List UInt8
  | [] => []
  | value :: values => (value.code :: value.payload) ++ listPayload values

/-- The bytes of the elements of an annotation. -/
def elementsPayload : List (Element ElementValue) → List UInt8
  | [] => []
  | element :: elements => elementPayload element ++ elementsPayload elements

/-- The bytes of an element. -/
def elementPayload : Element ElementValue → List UInt8
  | ⟨nameIndex, value⟩ => BigEndian.ofUInt16 nameIndex ++ value.code :: value.payload

end

/-- The bytes of a value. -/
def toBytes (value : ElementValue) : List UInt8 :=
  value.code :: value.payload

/-- Whether a value can be written and lies at most so many levels deep: its counts take two bytes,
and the values inside it have one level less. -/
def FitsWithin : (levels : Nat) → ElementValue → Prop
  | 0, _ => False
  | levels + 1, array values => values.length < 65536 ∧ ∀ value ∈ values, FitsWithin levels value
  | levels + 1, nested _ elements =>
    elements.length < 65536 ∧ ∀ element ∈ elements, FitsWithin levels element.value
  | _ + 1, _ => True

/-- Whether a value that nothing encloses can be written. -/
def Fits (value : ElementValue) : Prop :=
  value.FitsWithin (maxNesting + 1)

theorem listPayload_eq (values : List ElementValue) :
    listPayload values = values.flatMap toBytes := by
  induction values with
  | nil => rfl
  | cons value values ih => rw [listPayload, ih, List.flatMap_cons, toBytes]

theorem elementPayload_eq (element : Element ElementValue) :
    elementPayload element = element.toBytes toBytes := by
  rw [elementPayload, Element.toBytes, toBytes]

theorem elementsPayload_eq (elements : List (Element ElementValue)) :
    elementsPayload elements = elements.flatMap (Element.toBytes toBytes) := by
  induction elements with
  | nil => rfl
  | cons element elements ih =>
    rw [elementsPayload, ih, elementPayload_eq, List.flatMap_cons]

/-- A byte is the code of the letter that it stands for. -/
theorem ofNat_toNat_letter {byte : UInt8} {letter : Char}
    (hletter : Char.ofNat byte.toNat = letter) : UInt8.ofNat letter.toNat = byte := by
  have hbyte := byte.toNat_lt
  have hvalid : byte.toNat.isValidChar := .inl (by omega)
  have htoNat : letter.toNat = byte.toNat := by
    rw [← hletter, Char.ofNat, dif_pos hvalid]
    rfl
  rw [htoNat, UInt8.ofNat_toNat]

theorem decodeWithin_reads (levels : Nat) :
    Reads depth (decodeWithin levels) fun value ↦
      provided (value.FitsWithin levels) (exactly value.toBytes) := by
  induction levels with
  | zero => exact (Reads.fail _).congr fun value word ↦ by simp [FitsWithin]
  | succ levels ih =>
    refine .offset_bind fun start ↦ (Reads.tagged_of_kind code
      (fun value ↦ provided (value.FitsWithin (levels + 1)) (exactly value.payload))
      ?_ fun value ↦ ?_).congr fun value word ↦ by simp [toBytes]
    · intro byte
      split
      · rename_i tag htag
        exact .bind fun _ ↦ .pure ((ElementTag.ofCode?_eq_some_iff byte tag).mp htag)
      · split
        case h_1 hletter | h_3 hletter =>
          exact .bind fun _ ↦ .bind fun _ ↦ .pure (ofNat_toNat_letter hletter)
        case h_2 hletter | h_4 hletter =>
          exact .bind fun _ ↦ .pure (ofNat_toNat_letter hletter)
        case h_5 => exact .failAt start _
    · cases value with
      | constant tag index =>
        rw [code, (ElementTag.ofCode?_eq_some_iff tag.code tag).mpr rfl]
        refine ⟨_, Reads.u2.bind fun index ↦ .pure _, fun word ↦ ?_⟩
        simp [payload, FitsWithin, Language.mem_iSup]
      | enumConstant typeIndex nameIndex =>
        refine ⟨_, Reads.u2.bind fun typeIndex ↦ Reads.u2.bind fun nameIndex ↦ .pure _,
          fun word ↦ ?_⟩
        simp [payload, FitsWithin, Language.mem_iSup]
      | classInfo index =>
        refine ⟨_, Reads.u2.bind fun index ↦ .pure _, fun word ↦ ?_⟩
        simp [payload, FitsWithin, Language.mem_iSup]
      | array values =>
        refine ⟨_, ih.counted_exactly.bind fun values ↦ .pure _, fun word ↦ ?_⟩
        simp [payload, FitsWithin, Language.mem_iSup, listPayload_eq, withCount, and_assoc]
      | nested typeIndex elements =>
        refine ⟨_, Reads.u2.bind fun typeIndex ↦
          (Element.decode_reads ih).counted_exactly.bind fun elements ↦ .pure _, fun word ↦ ?_⟩
        simp [payload, FitsWithin, Language.mem_iSup, elementsPayload_eq, withCount, and_assoc]

theorem decode_reads :
    Reads depth ElementValue.decode fun value ↦ provided value.Fits (exactly value.toBytes) :=
  decodeWithin_reads (maxNesting + 1)

end ElementValue

/-! ### Annotations -/

namespace Annotation

/-- The bytes of an annotation. -/
def toBytes (item : Annotation) : List UInt8 :=
  BigEndian.ofUInt16 item.typeIndex ++
    withCount (Element.toBytes ElementValue.toBytes) item.elements

/-- Whether an annotation can be written. Its elements count as enclosed by nothing. -/
def Fits (item : Annotation) : Prop :=
  item.elements.length < 65536 ∧ ∀ element ∈ item.elements, element.value.Fits

theorem decode_reads :
    Reads depth Annotation.decode fun item ↦
      provided item.Fits (exactly item.toBytes) := by
  refine (Reads.u2.bind fun index ↦ (Element.decode_reads
    ElementValue.decode_reads).counted_exactly.bind fun elements ↦ .pure _).congr
    fun item word ↦ ?_
  obtain ⟨index, elements⟩ := item
  simp [Fits, toBytes, Language.mem_iSup]

end Annotation

end ClassFormat
