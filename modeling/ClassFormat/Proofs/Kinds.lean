import ClassFormat.Attribute.Decoder
import ClassFormat.Proofs.Run

/-!
# Kinds and what announces them

A kind is announced by a byte or by a name, and each of these announces one kind at most. What is
read for a kind is of that kind (`Constant.decodePayload_yields`, `Attribute.decodeBody_yields`).
-/

set_option autoImplicit false
set_option relaxedAutoImplicit false

namespace ClassFormat

open Decoder

/-! ### Bytes and names -/

namespace ElementTag

theorem mem_all (tag : ElementTag) : tag ∈ all := by
  cases tag <;> decide

/-- A byte stands for a tag exactly if it is the code of that tag. -/
theorem ofCode?_eq_some_iff (code : UInt8) (tag : ElementTag) :
    ofCode? code = some tag ↔ tag.code = code := by
  have hcodes : ∀ tag ∈ all, ofCode? tag.code = some tag := by decide +kernel
  constructor
  · intro hfound
    unfold ofCode? at hfound
    simpa using List.find?_some hfound
  · rintro rfl
    exact hcodes tag tag.mem_all

end ElementTag

namespace ArrayType

theorem mem_all (element : ArrayType) : element ∈ all := by
  cases element <;> decide

/-- A byte stands for an element type exactly if it is the code of that type. -/
theorem ofCode?_eq_some_iff (code : UInt8) (element : ArrayType) :
    ofCode? code = some element ↔ element.code = code := by
  have hcodes : ∀ element ∈ all, ofCode? element.code = some element := by decide
  constructor
  · intro hfound
    unfold ofCode? at hfound
    simpa using List.find?_some hfound
  · rintro rfl
    exact hcodes element element.mem_all

end ArrayType

/-- A byte stands for an opcode exactly if it is the byte of that opcode. -/
theorem Opcode.ofByte?_eq_some_iff (byte : UInt8) (opcode : Opcode) :
    ofByte? byte = some opcode ↔ opcode.byte = byte := by
  obtain ⟨byte', hassigned⟩ := opcode
  unfold ofByte?
  constructor
  · intro hfound
    split at hfound
    · cases hfound
      rfl
    · cases hfound
  · rintro rfl
    rw [dif_pos hassigned]

namespace Attribute.Kind

theorem mem_all (kind : Kind) : kind ∈ all := by
  cases kind <;> decide

/-- Bytes name a kind exactly if they are the bytes of its name. -/
theorem ofNameBytes?_eq_some_iff (bytes : List UInt8) (kind : Kind) :
    ofNameBytes? bytes = some kind ↔ bytes = kind.nameBytes := by
  have hnames : ∀ kind ∈ all, ofNameBytes? kind.nameBytes = some kind := by decide +kernel
  constructor
  · intro hfound
    unfold ofNameBytes? at hfound
    simpa [eq_comm] using List.find?_some hfound
  · rintro rfl
    exact hnames kind kind.mem_all

/-- The name of a kind is shown as it is. -/
theorem lossyUtf8_nameBytes (kind : Kind) : Text.LossyUtf8.decode kind.nameBytes = kind.name := by
  have hnames : ∀ kind ∈ all, Text.LossyUtf8.decode kind.nameBytes = kind.name := by
    decide +kernel
  exact hnames kind kind.mem_all

end Attribute.Kind

/-! ### What is read for a kind -/

/-- What follows a tag is a constant of the kind that the tag announces. -/
theorem Constant.decodePayload_yields (kind : Kind) :
    Yields (fun constant ↦ constant.kind = kind) (decodePayload kind) := by
  cases kind with
  | integer | float | classRef | string | methodType | moduleName | packageName =>
    exact .bind fun _ ↦ .pure rfl
  | _ => exact .bind fun _ ↦ .bind fun _ ↦ .pure rfl

/-- The body of an attribute of a kind gives an attribute of that kind. -/
theorem Attribute.decodeBody_yields (nested : Decoder Attribute) (kind : Kind) :
    Yields (fun item ↦ item.kind = kind) (decodeBody nested kind) := by
  cases kind with
  | synthetic | deprecated => exact .pure rfl
  | enclosingMethod | sourceDebugExtension => exact .bind fun _ ↦ .bind fun _ ↦ .pure rfl
  | _ => exact .bind fun _ ↦ .pure rfl

end ClassFormat
