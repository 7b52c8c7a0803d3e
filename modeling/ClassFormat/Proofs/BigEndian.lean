import ClassFormat.BigEndian
import Mathlib.Algebra.Group.Nat.Defs

/-!
# Numbers and their digits

The number that bytes stand for and the bytes of a number undo each other: `toNat_ofNat` for numbers
that fit, `ofNat_toNat` for all bytes.
-/

set_option autoImplicit false
set_option relaxedAutoImplicit false

namespace ClassFormat.BigEndian

/-- A further byte is a further digit. -/
theorem toNat_concat (bytes : List UInt8) (byte : UInt8) :
    toNat (bytes ++ [byte]) = toNat bytes * 256 + byte.toNat := by
  simp [toNat]

theorem toNat_lt (bytes : List UInt8) : toNat bytes < 256 ^ bytes.length := by
  suffices bounded : ∀ start, bytes.foldl (fun value byte ↦ value * 256 + byte.toNat) start <
      (start + 1) * 256 ^ bytes.length by
    simpa [toNat] using bounded 0
  induction bytes with
  | nil => simp
  | cons byte bytes ih =>
    intro start
    refine Nat.lt_of_lt_of_le (ih _) ?_
    have hbyte := byte.toNat_lt
    rw [List.length_cons, Nat.pow_succ, Nat.mul_comm _ 256, ← Nat.mul_assoc]
    refine Nat.mul_le_mul_right _ ?_
    show start * 256 + byte.toNat + 1 ≤ _
    omega

/-- The digits of a number that fits stand for that number. -/
theorem toNat_ofNat (width value : Nat) (fits : value < 256 ^ width) :
    toNat (ofNat width value) = value := by
  induction width generalizing value with
  | zero => simp_all [ofNat, toNat]
  | succ width ih =>
    rw [Nat.pow_succ] at fits
    have hdigit : (UInt8.ofNat value).toNat = value % 256 := by simp
    rw [ofNat, toNat_concat, ih _ (by omega), hdigit]
    omega

/-- Bytes are the digits of the number that they stand for. -/
theorem ofNat_toNat (bytes : List UInt8) : ofNat bytes.length (toNat bytes) = bytes := by
  generalize hlength : bytes.length = length
  induction length generalizing bytes with
  | zero => simp_all [ofNat]
  | succ length ih =>
    rcases List.eq_nil_or_concat bytes with rfl | ⟨init, last, rfl⟩
    · simp at hlength
    · have hlast := last.toNat_lt
      have hquotient : (toNat init * 256 + last.toNat) / 256 = toNat init := by omega
      have hdigit : UInt8.ofNat (toNat init * 256 + last.toNat) = last := by
        apply UInt8.toNat_inj.mp
        simp
      rw [List.concat_eq_append, toNat_concat, ofNat, hquotient, hdigit, ih init (by simp_all)]

/-- The first digits and the last digits of a number. -/
theorem ofNat_add (first last value : Nat) :
    ofNat (first + last) value = ofNat first (value / 256 ^ last) ++ ofNat last value := by
  induction last generalizing value with
  | zero => simp [ofNat]
  | succ last ih =>
    rw [← Nat.add_assoc, ofNat, ih, Nat.div_div_eq_div_mul, ← Nat.pow_succ', ofNat,
      List.append_assoc]

/-- The last digits of a number do not depend on those before them. -/
theorem ofNat_mod (width value : Nat) : ofNat width (value % 256 ^ width) = ofNat width value := by
  induction width generalizing value with
  | zero => rfl
  | succ width ih =>
    have hrest : value % 256 ^ (width + 1) / 256 = value / 256 % 256 ^ width := by
      rw [Nat.pow_succ', Nat.mod_mul_right_div_self]
    have hdigit : UInt8.ofNat (value % 256 ^ (width + 1)) = UInt8.ofNat value := by
      apply UInt8.toNat_inj.mp
      simp [Nat.pow_succ']
    rw [ofNat, hrest, hdigit, ih, ofNat]

/-! ### Numbers of a fixed width -/

/-- The bytes of a number of two bytes. -/
def ofUInt16 (value : UInt16) : List UInt8 :=
  ofNat 2 value.toNat

/-- The bytes of a number of four bytes. -/
def ofUInt32 (value : UInt32) : List UInt8 :=
  ofNat 4 value.toNat

@[simp] theorem length_ofUInt16 (value : UInt16) : (ofUInt16 value).length = 2 :=
  length_ofNat 2 _

@[simp] theorem length_ofUInt32 (value : UInt32) : (ofUInt32 value).length = 4 :=
  length_ofNat 4 _

/-- Two bytes are those of a number. -/
theorem exists_ofUInt16 {bytes : List UInt8} (hlength : bytes.length = 2) :
    ∃ value, bytes = ofUInt16 value := by
  have hfits := toNat_lt bytes
  rw [hlength] at hfits
  refine ⟨UInt16.ofNat (toNat bytes), ?_⟩
  rw [ofUInt16, UInt16.toNat_ofNat_of_lt' hfits, ← hlength, ofNat_toNat]

/-- Four bytes are those of a number. -/
theorem exists_ofUInt32 {bytes : List UInt8} (hlength : bytes.length = 4) :
    ∃ value, bytes = ofUInt32 value := by
  have hfits := toNat_lt bytes
  rw [hlength] at hfits
  refine ⟨UInt32.ofNat (toNat bytes), ?_⟩
  rw [ofUInt32, UInt32.toNat_ofNat_of_lt' hfits, ← hlength, ofNat_toNat]

/-- What begins with the digits of a number says which number and what follows it. -/
theorem ofNat_append_inj (width : Nat) {value value' : Nat} {rest rest' : List UInt8}
    (hfits : value < 256 ^ width) (hfits' : value' < 256 ^ width) :
    ofNat width value ++ rest = ofNat width value' ++ rest' ↔ value = value' ∧ rest = rest' := by
  constructor
  · intro hsame
    obtain ⟨hdigits, hrest⟩ := List.append_inj hsame (by rw [length_ofNat, length_ofNat])
    have hvalue := congrArg toNat hdigits
    rw [toNat_ofNat width value hfits, toNat_ofNat width value' hfits'] at hvalue
    exact ⟨hvalue, hrest⟩
  · rintro ⟨rfl, rfl⟩
    rfl

theorem ofUInt16_append_inj {value value' : UInt16} {rest rest' : List UInt8} :
    ofUInt16 value ++ rest = ofUInt16 value' ++ rest' ↔ value = value' ∧ rest = rest' := by
  rw [ofUInt16, ofUInt16, ofNat_append_inj 2 value.toNat_lt value'.toNat_lt, UInt16.toNat_inj]

theorem ofUInt32_append_inj {value value' : UInt32} {rest rest' : List UInt8} :
    ofUInt32 value ++ rest = ofUInt32 value' ++ rest' ↔ value = value' ∧ rest = rest' := by
  rw [ofUInt32, ofUInt32, ofNat_append_inj 4 value.toNat_lt value'.toNat_lt, UInt32.toNat_inj]

/-! ### The numbers that a width has room for -/

theorem exists_uint8_iff {number : Nat} :
    (∃ value : UInt8, value.toNat = number) ↔ number < 256 :=
  ⟨fun ⟨value, hvalue⟩ ↦ hvalue ▸ value.toNat_lt,
    fun hfits ↦ ⟨UInt8.ofNat number, Nat.mod_eq_of_lt hfits⟩⟩

theorem exists_uint16_iff {number : Nat} :
    (∃ value : UInt16, value.toNat = number) ↔ number < 65536 :=
  ⟨fun ⟨value, hvalue⟩ ↦ hvalue ▸ value.toNat_lt,
    fun hfits ↦ ⟨UInt16.ofNat number, Nat.mod_eq_of_lt hfits⟩⟩

theorem exists_uint32_iff {number : Nat} :
    (∃ value : UInt32, value.toNat = number) ↔ number < 0x100000000 :=
  ⟨fun ⟨value, hvalue⟩ ↦ hvalue ▸ value.toNat_lt,
    fun hfits ↦ ⟨UInt32.ofNat number, Nat.mod_eq_of_lt hfits⟩⟩

end ClassFormat.BigEndian
