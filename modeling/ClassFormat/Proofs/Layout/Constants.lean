import ClassFormat.Proofs.Kinds
import ClassFormat.Proofs.Layout

/-!
# The layout of constants

A constant is written as its tag and what follows it, and a pool as the number of its slots and its
constants. Reserved slots are not written. `Constant.decode_reads` and `ConstantPool.decode_reads`
say that reading is the inverse of that.
-/

set_option autoImplicit false
set_option relaxedAutoImplicit false

namespace ClassFormat

open Decoder

variable {depth : Nat}

/-! ### Constants -/

namespace Constant

/-- What is written behind the tag. -/
def payload : Constant → List UInt8
  | utf8 bytes => BigEndian.ofNat 2 bytes.length ++ bytes
  | integer bits | float bits => BigEndian.ofUInt32 bits
  | long bits | double bits => BigEndian.ofNat 8 bits.toNat
  | classRef index | string index | methodType index | moduleName index | packageName index =>
    BigEndian.ofUInt16 index
  | fieldRef first second | methodRef first second | interfaceMethodRef first second
  | nameAndType first second | dynamic first second | invokeDynamic first second =>
    BigEndian.ofUInt16 first ++ BigEndian.ofUInt16 second
  | methodHandle reference index => reference :: BigEndian.ofUInt16 index

/-- The bytes of a constant. -/
def toBytes (constant : Constant) : List UInt8 :=
  constant.kind.tag :: constant.payload

/-- Whether the constant can be written: a text needs a length of two bytes. -/
def Fits : Constant → Prop
  | utf8 bytes => bytes.length < 65536
  | _ => True

theorem eq_joined_iff {bits : UInt64} {high low : UInt32} :
    bits = joined high low ↔ high = highHalf bits ∧ low = lowHalf bits := by
  have hbits := bits.toNat_lt
  have hhigh := high.toNat_lt
  have hlow := low.toNat_lt
  simp only [← UInt64.toNat_inj, ← UInt32.toNat_inj, joined, highHalf, lowHalf, UInt64.toNat_ofNat',
    UInt32.toNat_ofNat']
  omega

/-- A number of eight bytes is written as its halves. -/
theorem ofNat_eight (bits : UInt64) :
    BigEndian.ofNat 8 bits.toNat =
      BigEndian.ofUInt32 (highHalf bits) ++ BigEndian.ofUInt32 (lowHalf bits) := by
  have hbits := bits.toNat_lt
  have hhigh : (highHalf bits).toNat = bits.toNat / 256 ^ 4 := by
    simp only [highHalf, UInt32.toNat_ofNat']
    omega
  have hlow : (lowHalf bits).toNat = bits.toNat % 256 ^ 4 := by
    simp only [lowHalf, UInt32.toNat_ofNat']
    omega
  rw [BigEndian.ofUInt32, BigEndian.ofUInt32, hhigh, hlow, BigEndian.ofNat_mod]
  exact BigEndian.ofNat_add 4 4 _

theorem decodePayload_reads (kind : Kind) :
    Reads depth (decodePayload kind) fun constant ↦
      provided (constant.kind = kind) (provided constant.Fits (exactly constant.payload)) := by
  refine Reads.of_kind decodePayload_yields (fun constant ↦ ?_) kind
  cases constant with
  | utf8 bytes =>
    refine ⟨_, .u2_bind_sized_bind (fun length ↦ .take length.toNat) fun _ _ ↦ .pure _,
      fun word ↦ ?_⟩
    simp [Fits, payload, Language.mem_iSup]
  | integer _ | float _ =>
    refine ⟨_, Reads.u4.bind fun bits ↦ .pure _, fun word ↦ ?_⟩
    simp [Fits, payload, Language.mem_iSup]
  | long _ | double _ =>
    refine ⟨_, Reads.u4.bind fun high ↦ Reads.u4.bind fun low ↦ .pure _, fun word ↦ ?_⟩
    simp [Fits, payload, Language.mem_iSup, eq_joined_iff, ofNat_eight]
  | classRef _ | string _ | methodType _ | moduleName _ | packageName _ =>
    refine ⟨_, Reads.u2.bind fun index ↦ .pure _, fun word ↦ ?_⟩
    simp [Fits, payload, Language.mem_iSup]
  | methodHandle _ _ =>
    refine ⟨_, Reads.u1.bind fun reference ↦ Reads.u2.bind fun index ↦ .pure _, fun word ↦ ?_⟩
    simp [Fits, payload, Language.mem_iSup]
  | _ =>
    refine ⟨_, Reads.u2.bind fun first ↦ Reads.u2.bind fun second ↦ .pure _, fun word ↦ ?_⟩
    simp [Fits, payload, Language.mem_iSup]

theorem decode_reads :
    Reads depth decode fun constant ↦ provided constant.Fits (exactly constant.toBytes) := by
  refine .offset_bind fun start ↦ (Reads.tagged (fun constant ↦ constant.kind.tag)
    (fun constant ↦ provided constant.Fits (exactly constant.payload)) fun tag ↦ ?_).congr
    fun constant word ↦ by simp [toBytes]
  cases htag : Kind.ofTag? tag with
  | some kind =>
    refine (decodePayload_reads kind).congr fun constant word ↦ ?_
    simp only [mem_provided, ← Kind.ofTag?_eq_some_iff, htag, Option.some_inj, @eq_comm Kind]
  | none =>
    refine (Reads.failAt start _).congr fun constant word ↦ ?_
    rw [mem_provided, ← Kind.ofTag?_eq_some_iff, htag]
    simp

end Constant

/-! ### Pools -/

namespace ConstantPool

/-- The slots that constants take. -/
def slotsOf (constants : List Constant) : List (Option Constant) :=
  constants.flatMap fun constant ↦
    if constant.isWide then [some constant, none] else [some constant]

@[simp] theorem slotsOf_nil : slotsOf [] = [] := rfl

theorem slotsOf_eq_nil_iff {constants : List Constant} :
    slotsOf constants = [] ↔ constants = [] := by
  cases constants with
  | nil => simp
  | cons constant constants => by_cases hwide : constant.isWide <;> simp [slotsOf, hwide]

theorem slotsOf_cons_of_isWide {constant : Constant} {constants : List Constant}
    (hwide : constant.isWide) :
    slotsOf (constant :: constants) = some constant :: none :: slotsOf constants := by
  simp [slotsOf, hwide]

theorem slotsOf_cons_of_not_isWide {constant : Constant} {constants : List Constant}
    (hnarrow : ¬constant.isWide) :
    slotsOf (constant :: constants) = some constant :: slotsOf constants := by
  simp [slotsOf, hnarrow]

/-- The slots behind a slot are those of constants exactly if they begin with a constant and what
follows it is right. -/
theorem exists_cons_eq_slotsOf {slot : Option Constant} {slots : List (Option Constant)} :
    (∃ constants, slot :: slots = slotsOf constants) ↔
      ∃ constant, slot = some constant ∧ ∃ constants,
        slots = if constant.isWide then none :: slotsOf constants else slotsOf constants := by
  constructor
  · rintro ⟨constants, hslots⟩
    cases constants with
    | nil => cases hslots
    | cons constant constants =>
      by_cases hwide : constant.isWide
      · rw [slotsOf_cons_of_isWide hwide] at hslots
        cases hslots
        exact ⟨constant, rfl, constants, by simp [hwide]⟩
      · rw [slotsOf_cons_of_not_isWide hwide] at hslots
        cases hslots
        exact ⟨constant, rfl, constants, by simp [hwide]⟩
  · rintro ⟨constant, rfl, constants, rfl⟩
    by_cases hwide : constant.isWide
    · exact ⟨constant :: constants, by simp [slotsOf_cons_of_isWide, hwide]⟩
    · exact ⟨constant :: constants, by simp [slotsOf_cons_of_not_isWide, hwide]⟩

/-- Whether, from a slot on, exactly those slots are reserved that stand behind a constant of two
slots. -/
def Placed (slots : List (Option Constant)) : Prop :=
  ∀ index, slots[index + 1]? = some none ↔
    ∃ constant, constant.isWide ∧ slots[index]? = some (some constant)

theorem placed_singleton {slot : Option Constant} :
    Placed [slot] ↔ ¬∃ constant, constant.isWide ∧ slot = some constant := by
  constructor
  · intro hplaced
    simpa using hplaced 0
  · intro hslot index
    cases index with
    | zero => simpa using hslot
    | succ index => simp

theorem placed_cons {slot next : Option Constant} {slots : List (Option Constant)} :
    Placed (slot :: next :: slots) ↔
      (next = none ↔ ∃ constant, constant.isWide ∧ slot = some constant) ∧
        Placed (next :: slots) := by
  constructor
  · intro hplaced
    exact ⟨by simpa using hplaced 0, fun index ↦ by simpa using hplaced (index + 1)⟩
  · rintro ⟨hnext, hplaced⟩ index
    cases index with
    | zero => simpa using hnext
    | succ index => simpa using hplaced index

/-- Slots behind one that needs no other are placed exactly if they are those of some constants. -/
theorem placed_iff (slot : Option Constant) (slots : List (Option Constant))
    (hslot : ¬∃ constant, constant.isWide ∧ slot = some constant) :
    Placed (slot :: slots) ↔ ∃ constants, slots = slotsOf constants := by
  induction hlength : slots.length using Nat.strongRecOn generalizing slot slots with
  | ind length ih =>
    subst hlength
    cases slots with
    | nil => exact iff_of_true (placed_singleton.mpr hslot) ⟨[], rfl⟩
    | cons next slots =>
      rw [placed_cons, exists_cons_eq_slotsOf]
      simp only [hslot, iff_false]
      cases next with
      | none => simp
      | some constant =>
        by_cases hwide : constant.isWide
        · cases slots with
          | nil => simp [placed_singleton, hwide]
          | cons reserved slots =>
            have hshorter : slots.length < (some constant :: reserved :: slots).length := by
              rw [List.length_cons, List.length_cons]
              omega
            have hrest := ih slots.length hshorter none slots (by simp) rfl
            cases reserved <;> simp [placed_cons, hwide, hrest]
        · have hrest := ih slots.length (by simp) (some constant) slots (by simpa using hwide) rfl
          simp [hwide, hrest]

/-- A pool is well formed if the first slot is reserved and so is exactly every slot behind a
constant of two slots, if its constants can be written, and if the number of slots takes two bytes.
-/
structure WellFormed (pool : ConstantPool) : Prop where
  first_reserved : pool.slots[0]? = some none
  reserved_iff : ∀ index, pool.slots[index + 1]? = some none ↔
    ∃ constant, constant.isWide ∧ pool.slots[index]? = some (some constant)
  fits : ∀ constant ∈ pool.constants, constant.Fits
  size_lt : pool.size < 65536

/-- Whether a pool may stand behind a count. The count is the number of slots, but a pool without
constants may also stand behind zero. -/
def Counts (pool : ConstantPool) (count : UInt16) : Prop :=
  count.toNat = pool.size ∨ count = 0 ∧ pool.size = 1

/-- The bytes of a pool that begins with the given count. -/
def toBytes (pool : ConstantPool) (count : UInt16) : List UInt8 :=
  BigEndian.ofUInt16 count ++ pool.constants.flatMap Constant.toBytes

theorem filterMap_slotsOf (constants : List Constant) :
    (slotsOf constants).filterMap (fun slot ↦ slot) = constants := by
  induction constants with
  | nil => rfl
  | cons constant constants ih =>
    by_cases hwide : constant.isWide
    · simp [slotsOf_cons_of_isWide hwide, ih]
    · simp [slotsOf_cons_of_not_isWide hwide, ih]

theorem constants_of_toList {pool : ConstantPool} {constants : List Constant}
    (hslots : pool.slots.toList = none :: slotsOf constants) : pool.constants = constants := by
  simp [ConstantPool.constants, hslots, filterMap_slotsOf]

/-- A pool is well formed exactly if it is made of constants that can be written and not too many
of them. -/
theorem wellFormed_iff (pool : ConstantPool) :
    pool.WellFormed ↔ ∃ constants, pool.slots.toList = none :: slotsOf constants ∧
      (∀ constant ∈ constants, constant.Fits) ∧ pool.size < 65536 := by
  constructor
  · intro hpool
    obtain ⟨hfirst, hreserved, hfits, hsize⟩ := hpool
    simp only [← Array.getElem?_toList] at hfirst hreserved
    cases hslots : pool.slots.toList with
    | nil => simp [hslots] at hfirst
    | cons slot slots =>
      rw [hslots] at hfirst hreserved
      cases hfirst
      obtain ⟨constants, rfl⟩ := (placed_iff none slots (by simp)).mp hreserved
      exact ⟨constants, rfl, constants_of_toList hslots ▸ hfits, hsize⟩
  · rintro ⟨constants, hslots, hfits, hsize⟩
    have hplaced := (placed_iff none (slotsOf constants) (by simp)).mpr ⟨constants, rfl⟩
    constructor
    · simp [← Array.getElem?_toList, hslots]
    · simp only [← Array.getElem?_toList, hslots]
      exact hplaced
    · rwa [constants_of_toList hslots]
    · exact hsize

/-! ### Reading a pool -/

theorem decodeOnto_reads (left : Nat) (slots : Array (Option Constant)) :
    Reads depth (decodeOnto left slots) fun filled ↦
      words fun word ↦ ∃ constants, filled.toList = slots.toList ++ slotsOf constants ∧
        (slotsOf constants).length = left ∧ (∀ constant ∈ constants, constant.Fits) ∧
        word = constants.flatMap Constant.toBytes := by
  induction left using Nat.strongRecOn generalizing slots with
  | ind left ih =>
    cases left with
    | zero =>
      refine (Reads.pure slots).congr fun filled word ↦ ?_
      simp only [mem_provided, mem_exactly, List.length_eq_zero_iff, slotsOf_eq_nil_iff]
      constructor
      · rintro ⟨rfl, rfl⟩
        exact ⟨[], by simp⟩
      · rintro ⟨constants, hfilled, rfl, -, rfl⟩
        exact ⟨Array.toList_inj.mp (by simpa using hfilled), rfl⟩
    | succ left =>
      rw [decodeOnto]
      -- The constant comes first, and what the rest may be depends on whether it needs two slots.
      refine .offset_bind fun start ↦ (Constant.decode_reads.bind fun constant ↦
        (?rest : Reads depth _ fun filled ↦ words fun word ↦ ∃ constants,
          filled.toList = slots.toList ++ slotsOf (constant :: constants) ∧
          (slotsOf (constant :: constants)).length = left + 1 ∧
          (∀ constant ∈ constants, constant.Fits) ∧
          word = constants.flatMap Constant.toBytes)).congr fun filled word ↦ ?_
      case rest =>
        by_cases hwide : constant.isWide
        · rw [if_pos hwide]
          cases left with
          | zero =>
            refine (Reads.failAt start _).congr fun filled word ↦ ?_
            simp [slotsOf_cons_of_isWide hwide]
          | succ left =>
            refine (ih left (by omega) _).congr fun filled word ↦ ?_
            simp [slotsOf_cons_of_isWide hwide]
        · rw [if_neg hwide]
          refine (ih left (by omega) _).congr fun filled word ↦ ?_
          simp [slotsOf_cons_of_not_isWide hwide]
      simp only [Language.mem_iSup, mem_provided_mul, mem_exactly_mul]
      constructor
      · rintro ⟨constant, hfits, _, ⟨constants, hfilled, hlength, hall, rfl⟩, rfl⟩
        exact ⟨constant :: constants, hfilled, hlength, by simpa using ⟨hfits, hall⟩, rfl⟩
      · rintro ⟨constants, hfilled, hlength, hall, rfl⟩
        cases constants with
        | nil => simp at hlength
        | cons constant constants =>
          obtain ⟨hfits, hrest⟩ := List.forall_mem_cons.mp hall
          exact ⟨constant, hfits, _, ⟨constants, hfilled, hlength, hrest, rfl⟩, rfl⟩

theorem decode_reads :
    Reads depth decode fun pool ↦ ⨆ count : UInt16,
      provided (pool.WellFormed ∧ pool.Counts count) (exactly (pool.toBytes count)) := by
  refine (Reads.u2.bind fun count ↦ (decodeOnto_reads (count.toNat - 1) #[none]).bind
    fun slots ↦ .record_bind <| .pure (ConstantPool.mk slots)).congr fun pool word ↦ ?_
  simp only [Language.mem_iSup, mem_exactly_mul, mem_words_mul, mem_provided, mem_exactly]
  refine exists_congr fun count ↦ ?_
  rw [wellFormed_iff]
  have hcount := count.toNat_lt
  constructor
  · rintro ⟨_, ⟨slots, _, ⟨constants, hslots, hlength, hfits, rfl⟩, _, ⟨rfl, rfl⟩, rfl⟩, rfl⟩
    have hsize : slots.size = (slotsOf constants).length + 1 := by
      simpa using congrArg List.length hslots
    refine ⟨⟨⟨constants, hslots, hfits, ?_⟩, ?_⟩, ?_⟩
    · show slots.size < 65536
      omega
    · rcases Nat.eq_zero_or_pos count.toNat with hzero | hpositive
      · exact .inr ⟨UInt16.toNat_inj.mp hzero, show slots.size = 1 by omega⟩
      · exact .inl (show count.toNat = slots.size by omega)
    · rw [toBytes, constants_of_toList hslots, List.append_nil]
  · rintro ⟨⟨⟨constants, hslots, hfits, hsize⟩, hcounts⟩, rfl⟩
    have hlength : pool.size = (slotsOf constants).length + 1 := by
      simpa [size] using congrArg List.length hslots
    refine ⟨_, ⟨pool.slots, _, ⟨constants, hslots, ?_, hfits, rfl⟩, [], ⟨rfl, rfl⟩, rfl⟩, ?_⟩
    · rcases hcounts with heq | ⟨rfl, hone⟩
      · omega
      · show _ = 0
        omega
    · rw [toBytes, constants_of_toList hslots, List.append_nil]

end ConstantPool

end ClassFormat
