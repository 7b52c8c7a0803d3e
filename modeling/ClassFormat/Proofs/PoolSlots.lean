import ClassFormat.Proofs.Layout.Constants
import ClassFormat.Proofs.Plain.Decoders
import Mathlib.Algebra.GroupWithZero.Nat

/-!
# The slots of a pool

A pool is filled by two loops, one over given constants (`ConstantPool.ofConstants`) and one over
the input (`ConstantPool.decodeOnto`), and both leave a slot behind every constant of two slots. The
second one is bounded by a number of slots and not of constants. The two agree step by step
(`ConstantPool.decodeOnto_step`), so that as many constants as there is room for are read as the
pool that they make (`ConstantPool.decode_eq_ok_iff`), and a constant of two slots that finds one
left is refused.

`ConstantPool.decode_agrees_with_ofConstants` puts this together with what lookups answer in a pool
that was made in either way (`ConstantPool.Answers`). How many slots a pool has after its bytes were
read is `ConstantPool.size_of_decode`: the first slot is there whatever they declare.
-/

set_option autoImplicit false
set_option relaxedAutoImplicit false

namespace ClassFormat

open Decoder

namespace Constant

/-- How many slots of a pool a constant takes. -/
def width (constant : Constant) : Nat :=
  if constant.isWide then 2 else 1

/-- A constant is read exactly if its bytes come next. -/
theorem decode_eq_ok_iff {state after : State} {constant : Constant} :
    decode state = .ok constant after ↔
      constant.Fits ∧ constant.toBytes <+: state.cursor.rest ∧
        after = ⟨state.cursor.advance constant.toBytes.length, state.log⟩ := by
  rw [decode_reads.eq_ok_iff decode_plain.forward.silent]
  constructor
  · rintro ⟨word, ⟨hfits, rfl⟩, hbegins, hafter⟩
    exact ⟨hfits, hbegins, hafter⟩
  · intro ⟨hfits, hbegins, hafter⟩
    exact ⟨constant.toBytes, ⟨hfits, rfl⟩, hbegins, hafter⟩

end Constant

namespace ConstantPool

/-! ### Pools of given constants -/

/-- The number of slots of the pool that constants make. -/
def slotTotal (constants : List Constant) : Nat :=
  1 + (constants.map Constant.width).sum

theorem toList_foldl_appendConstant (constants : List Constant)
    (slots : Array (Option Constant)) :
    (constants.foldl appendConstant slots).toList = slots.toList ++ slotsOf constants := by
  induction constants generalizing slots with
  | nil => simp
  | cons constant constants ih =>
    rw [List.foldl_cons, ih]
    by_cases hwide : constant.isWide
    · simp [appendConstant, hwide, slotsOf_cons_of_isWide hwide]
    · simp [appendConstant, hwide, slotsOf_cons_of_not_isWide hwide]

theorem slots_ofConstants (constants : List Constant) :
    (ofConstants constants).slots = constants.foldl appendConstant #[none] := by
  rw [ofConstants, ofEntries, List.foldl_map]

theorem toList_ofConstants (constants : List Constant) :
    (ofConstants constants).slots.toList = none :: slotsOf constants := by
  rw [slots_ofConstants, toList_foldl_appendConstant]
  rfl

theorem eq_ofConstants_iff {pool : ConstantPool} {constants : List Constant} :
    pool = ofConstants constants ↔ pool.slots.toList = none :: slotsOf constants := by
  rw [← toList_ofConstants, Array.toList_inj]
  constructor
  · intro hpool
    rw [hpool]
  · exact congrArg ConstantPool.mk

theorem length_slotsOf (constants : List Constant) :
    (slotsOf constants).length = (constants.map Constant.width).sum := by
  induction constants with
  | nil => rfl
  | cons constant constants ih =>
    rw [List.map_cons, List.sum_cons, ← ih]
    by_cases hwide : constant.isWide
    · rw [slotsOf_cons_of_isWide hwide, Constant.width, if_pos hwide]
      simp only [List.length_cons]
      omega
    · rw [slotsOf_cons_of_not_isWide hwide, Constant.width, if_neg hwide]
      simp only [List.length_cons]
      omega

theorem size_ofConstants (constants : List Constant) :
    (ofConstants constants).size = slotTotal constants := by
  rw [size, ← Array.length_toList, toList_ofConstants, List.length_cons, length_slotsOf, slotTotal,
    Nat.add_comm]

/-! ### Reading constants -/

/-- One constant that is read fills the slots that one constant which is given would fill. -/
theorem decodeOnto_step {constant : Constant} (state : State) (hfits : constant.Fits)
    (hbegins : constant.toBytes <+: state.cursor.rest) (left : Nat)
    (slots : Array (Option Constant)) :
    decodeOnto (constant.width + left) slots state =
      decodeOnto left (appendConstant slots constant)
        ⟨state.cursor.advance constant.toBytes.length, state.log⟩ := by
  have hconstant := Constant.decode_eq_ok_iff.mpr ⟨hfits, hbegins, rfl⟩
  by_cases hwide : constant.isWide
  · have hleft : constant.width + left = left + 1 + 1 := by
      rw [Constant.width, if_pos hwide, Nat.add_comm]
    rw [hleft, decodeOnto]
    show (Constant.decode >>= _) state = _
    rw [bind_of_ok hconstant, if_pos hwide, appendConstant, if_pos hwide]
  · have hleft : constant.width + left = left + 1 := by
      rw [Constant.width, if_neg hwide, Nat.add_comm]
    rw [hleft, decodeOnto]
    show (Constant.decode >>= _) state = _
    rw [bind_of_ok hconstant, if_neg hwide, appendConstant, if_neg hwide]

/-- The same of any number of constants, however many slots are left behind them. -/
theorem decodeOnto_steps {constants : List Constant} (state : State)
    (hfits : ∀ constant ∈ constants, constant.Fits)
    (hbegins : constants.flatMap Constant.toBytes <+: state.cursor.rest) (left : Nat)
    (slots : Array (Option Constant)) :
    decodeOnto ((constants.map Constant.width).sum + left) slots state =
      decodeOnto left (constants.foldl appendConstant slots)
        ⟨state.cursor.advance (constants.flatMap Constant.toBytes).length, state.log⟩ := by
  induction constants generalizing state slots with
  | nil => simp
  | cons constant constants ih =>
    obtain ⟨hfirst, hrest⟩ := List.forall_mem_cons.mp hfits
    obtain ⟨behind, hbehind⟩ := hbegins
    rw [List.flatMap_cons, List.append_assoc] at hbehind
    rw [List.map_cons, List.sum_cons, Nat.add_assoc,
      decodeOnto_step state hfirst ⟨_, hbehind⟩, ih _ hrest]
    · rw [Cursor.advance_advance, List.flatMap_cons, List.length_append, List.foldl_cons]
    · rw [Cursor.advance_rest, ← hbehind, List.drop_left]
      exact List.prefix_append _ _

/-- A constant of two slots is refused where one slot is left. -/
theorem decodeOnto_one_of_isWide {constant : Constant} (state : State) (hfits : constant.Fits)
    (hwide : constant.isWide) (hbegins : constant.toBytes <+: state.cursor.rest)
    (slots : Array (Option Constant)) :
    ∃ after, decodeOnto 1 slots state =
      .error ⟨.poolOverflow slots.size (slots.size + 1), state.cursor.absolute⟩ after := by
  have hconstant := Constant.decode_eq_ok_iff.mpr ⟨hfits, hbegins, rfl⟩
  refine ⟨⟨state.cursor.advance constant.toBytes.length, state.log⟩, ?_⟩
  rw [decodeOnto]
  show (Constant.decode >>= _) state = _
  rw [bind_of_ok hconstant, if_pos hwide]
  rfl

theorem decodeOnto_forward (left : Nat) (slots : Array (Option Constant)) :
    Forward (decodeOnto left slots) := by
  induction left using Nat.strongRecOn generalizing slots with
  | ind left ih =>
    cases left with
    | zero => exact .pure slots
    | succ left =>
      rw [decodeOnto]
      refine .offset_bind fun start ↦ .bind Constant.decode_plain.forward fun constant ↦ ?_
      by_cases hwide : constant.isWide
      · rw [if_pos hwide]
        cases left with
        | zero => exact .failAt start fun hmismatch ↦ hmismatch
        | succ left => exact ih left (by omega) _
      · rw [if_neg hwide]
        exact ih left (by omega) _

/-! ### Reading pools -/

/-- The bytes of constants behind a count. -/
def bytesOf (count : UInt16) (constants : List Constant) : List UInt8 :=
  BigEndian.ofUInt16 count ++ constants.flatMap Constant.toBytes

theorem length_bytesOf (count : UInt16) (constants : List Constant) :
    (bytesOf count constants).length = 2 + (constants.flatMap Constant.toBytes).length := by
  rw [bytesOf, List.length_append, BigEndian.length_ofUInt16]

/-- Behind the count the constants are read. -/
theorem decode_of_count {count : UInt16} {state : State}
    (hcount : BigEndian.ofUInt16 count <+: state.cursor.rest) :
    decode state =
      (do
        let slots ← decodeOnto (count.toNat - 1) #[none]
        record (.pool slots.size)
        return ⟨slots⟩ : Decoder ConstantPool) ⟨state.cursor.advance 2, state.log⟩ :=
  bind_of_ok (u2_eq_ok_iff.mpr ⟨hcount, rfl⟩)

/-- A pool is read exactly if it is that of some constants which take as many slots as the count
says and stand behind it. -/
theorem decode_eq_ok_iff {count : UInt16} {state after : State} {pool : ConstantPool}
    (hcount : BigEndian.ofUInt16 count <+: state.cursor.rest) (hpositive : 1 ≤ count.toNat) :
    decode state = .ok pool after ↔
      ∃ constants, (∀ constant ∈ constants, constant.Fits) ∧
        slotTotal constants = count.toNat ∧ bytesOf count constants <+: state.cursor.rest ∧
        pool = ofConstants constants ∧
        after = ⟨state.cursor.advance (bytesOf count constants).length,
          state.log.push (.pool count.toNat)⟩ := by
  have hreads (filled : Array (Option Constant)) (between : State) :=
    @Reads.eq_ok_iff _ _ _ ⟨state.cursor.advance 2, state.log⟩ between filled
      (decodeOnto_reads (count.toNat - 1) #[none]) (decodeOnto_forward _ _).silent
  rw [decode_of_count hcount, bind_eq_ok_iff]
  constructor
  · rintro ⟨filled, between, hfilled, hrecorded⟩
    obtain ⟨_, ⟨constants, hslots, hlength, hfits, rfl⟩, hbegins, rfl⟩ :=
      (hreads filled between).mp hfilled
    have hpool : ⟨filled⟩ = ofConstants constants := eq_ofConstants_iff.mpr hslots
    have htotal : slotTotal constants = count.toNat := by
      rw [slotTotal, ← length_slotsOf, hlength]
      omega
    have hsize : filled.size = count.toNat := by
      rw [← htotal, ← size_ofConstants, ← hpool]
      rfl
    cases hrecorded
    refine ⟨constants, hfits, htotal, append_prefix_iff.mpr ⟨hcount, ?_⟩, hpool, ?_⟩
    · rwa [BigEndian.length_ofUInt16]
    · rw [Cursor.advance_advance, length_bytesOf, hsize]
  · rintro ⟨constants, hfits, htotal, hbegins, rfl, rfl⟩
    have hbehind := (append_prefix_iff.mp hbegins).2
    rw [BigEndian.length_ofUInt16] at hbehind
    have hlength : (slotsOf constants).length = count.toNat - 1 := by
      rw [length_slotsOf, ← htotal, slotTotal]
      omega
    refine ⟨(ofConstants constants).slots, _, (hreads _ _).mpr
      ⟨_, ⟨constants, toList_ofConstants constants, hlength, hfits, rfl⟩, hbehind, rfl⟩, ?_⟩
    have hsize : (ofConstants constants).slots.size = count.toNat := by
      rw [← htotal, ← size_ofConstants]
      rfl
    show EStateM.Result.ok _ _ = _
    rw [Cursor.advance_advance, length_bytesOf, hsize]

/-- A constant of two slots for which one slot is left is refused at its tag. -/
theorem decode_of_overflow {count : UInt16} {constants : List Constant} {wide : Constant}
    {state : State} (hfits : ∀ constant ∈ constants, constant.Fits) (hwideFits : wide.Fits)
    (hwide : wide.isWide) (htotal : slotTotal constants + 1 = count.toNat)
    (hbegins : bytesOf count constants ++ wide.toBytes <+: state.cursor.rest) :
    ∃ after, decode state = .error ⟨.poolOverflow (count.toNat - 1) count.toNat,
      state.cursor.absolute + (bytesOf count constants).length⟩ after := by
  obtain ⟨hconstants, hnext⟩ := append_prefix_iff.mp hbegins
  obtain ⟨hcount, hbehind⟩ := append_prefix_iff.mp hconstants
  rw [BigEndian.length_ofUInt16] at hbehind
  have hleft : count.toNat - 1 = (constants.map Constant.width).sum + 1 := by
    rw [← htotal, slotTotal]
    omega
  have hsize : (constants.foldl appendConstant #[none]).size + 1 = count.toNat := by
    rw [← slots_ofConstants, ← htotal, ← size_ofConstants]
    rfl
  have hsteps := decodeOnto_steps ⟨state.cursor.advance 2, state.log⟩ hfits hbehind 1 #[none]
  rw [Cursor.advance_advance, ← length_bytesOf count, ← hleft] at hsteps
  obtain ⟨after, hrefused⟩ := decodeOnto_one_of_isWide
    ⟨state.cursor.advance (bytesOf count constants).length, state.log⟩ hwideFits hwide hnext
    (constants.foldl appendConstant #[none])
  rw [Cursor.advance_absolute, hsize] at hrefused
  refine ⟨after, ?_⟩
  rw [decode_of_count hcount, bind_of_error (hsteps.trans hrefused), ← hsize, Nat.add_sub_cancel]

/-! ### Lookups -/

/-- What the lookup of a constant answers: an index without a slot, an index of a reserved slot and
one of a constant are told apart. -/
structure Answers (pool : ConstantPool) (index : Nat) : Prop where
  outOfRange_iff : pool.constant index = .error (.outOfRange index pool.size) ↔
    index = 0 ∨ pool.size ≤ index
  reserved_iff : pool.constant index = .error (.reserved index) ↔
    (0 < index ∧ index < pool.size) ∧
      ∃ wide : Constant, wide.isWide ∧ pool.slots[index - 1]? = some (some wide)
  otherwise : pool.constant index ≠ .error (.outOfRange index pool.size) →
    pool.constant index ≠ .error (.reserved index) →
      ∃ constant, pool.slots[index]? = some (some constant) ∧ pool.constant index = .ok constant

theorem constant_of_size_le {pool : ConstantPool} {index : Nat}
    (hindex : index = 0 ∨ pool.size ≤ index) :
    pool.constant index = .error (.outOfRange index pool.size) := by
  by_cases hzero : index = 0
  · rw [constant, if_pos hzero]
  · have hslot : pool.slots[index]? = none :=
      Array.getElem?_eq_none (hindex.resolve_left hzero)
    rw [constant, if_neg hzero, slot, hslot]
    rfl

theorem constant_of_reserved {pool : ConstantPool} {index : Nat} (hpositive : index ≠ 0)
    (hslot : pool.slots[index]? = some none) : pool.constant index = .error (.reserved index) := by
  rw [constant, if_neg hpositive, slot, hslot]
  rfl

theorem constant_of_filled {pool : ConstantPool} {index : Nat} {held : Constant}
    (hpositive : index ≠ 0) (hslot : pool.slots[index]? = some (some held)) :
    pool.constant index = .ok held := by
  rw [constant, if_neg hpositive, slot, hslot]
  rfl

/-- Lookups answer in this way in every pool of which the reserved slots are the first one and those
behind constants of two slots. -/
theorem answers_of_slots {pool : ConstantPool} {constants : List Constant}
    (hslots : pool.slots.toList = none :: slotsOf constants) (index : Nat) :
    pool.Answers index := by
  have hplaced := (placed_iff none (slotsOf constants) (by simp)).mpr ⟨constants, rfl⟩
  rw [← hslots] at hplaced
  simp only [Placed, Array.getElem?_toList] at hplaced
  by_cases hindex : index = 0 ∨ pool.size ≤ index
  · have hanswer := constant_of_size_le hindex
    refine ⟨by simp [hanswer, hindex], ?_, fun hother ↦ absurd hanswer hother⟩
    rw [hanswer]
    simp only [Except.error.injEq, reduceCtorEq, false_iff]
    omega
  · obtain ⟨hpositive, hsize⟩ := not_or.mp hindex
    have hwithin : index < pool.size := Nat.lt_of_not_le hsize
    have hreserved := hplaced (index - 1)
    rw [Nat.sub_add_cancel (Nat.pos_of_ne_zero hpositive)] at hreserved
    have hslot : pool.slots[index]? = some pool.slots[index] := Array.getElem?_eq_getElem hwithin
    cases hheld : pool.slots[index] with
    | none =>
      rw [hheld] at hslot
      have hanswer := constant_of_reserved hpositive hslot
      refine ⟨by simp [hanswer, hindex], ?_, fun _ hother ↦ absurd hanswer hother⟩
      exact iff_of_true hanswer ⟨⟨Nat.pos_of_ne_zero hpositive, hwithin⟩, hreserved.mp hslot⟩
    | some held =>
      rw [hheld] at hslot
      have hanswer := constant_of_filled hpositive hslot
      refine ⟨by simp [hanswer, hindex], ?_, fun _ _ ↦ ⟨held, hslot, hanswer⟩⟩
      rw [hanswer, ← hreserved, hslot]
      simp

/-- The two ways to a pool agree. Constants are read as the pool that they make, and the bytes
behind them are left; what is read is always the pool that its own constants make, and the bytes
that were taken are those of these constants. A constant of two slots that would stand in the last
slot is refused at its tag. In every pool that was made in either way, lookups answer from the slots
as they should. -/
theorem decode_agrees_with_ofConstants (state : State) (count : UInt16) :
    (∀ constants behind, (∀ constant ∈ constants, constant.Fits) →
      slotTotal constants = count.toNat →
      state.cursor.rest = bytesOf count constants ++ behind →
      ∃ after, decode state = .ok (ofConstants constants) after ∧ after.cursor.rest = behind ∧
        after.cursor.position = state.cursor.position + (bytesOf count constants).length) ∧
    (∀ pool after, BigEndian.ofUInt16 count <+: state.cursor.rest → 1 ≤ count.toNat →
      decode state = .ok pool after →
      pool = ofConstants pool.constants ∧ slotTotal pool.constants = count.toNat ∧
        state.cursor.rest = bytesOf count pool.constants ++ after.cursor.rest ∧
        after.cursor.position = state.cursor.position + (bytesOf count pool.constants).length) ∧
    (∀ constants (wide : Constant), (∀ constant ∈ constants, constant.Fits) → wide.Fits →
      wide.isWide → slotTotal constants + 1 = count.toNat →
      bytesOf count constants ++ wide.toBytes <+: state.cursor.rest →
      ∃ after, decode state = .error ⟨.poolOverflow (count.toNat - 1) count.toNat,
        state.cursor.absolute + (bytesOf count constants).length⟩ after) ∧
    ∀ pool, ((∃ constants, pool = ofConstants constants) ∨
      ∃ after, decode state = .ok pool after) → ∀ index, pool.Answers index := by
  refine ⟨?_, ?_, fun constants wide hfits hwideFits hwide htotal hbegins ↦
    decode_of_overflow hfits hwideFits hwide htotal hbegins, ?_⟩
  · intro constants behind hfits htotal hrest
    have hbegins : bytesOf count constants <+: state.cursor.rest := hrest ▸ List.prefix_append _ _
    have hpositive : 1 ≤ count.toNat := by
      rw [← htotal, slotTotal]
      exact Nat.le_add_right ..
    have hrun := (decode_eq_ok_iff (append_prefix_iff.mp hbegins).1 hpositive).mpr
      ⟨constants, hfits, htotal, hbegins, rfl, rfl⟩
    refine ⟨_, hrun, ?_, rfl⟩
    rw [Cursor.advance_rest, hrest, List.drop_left]
  · intro pool after hcount hpositive hrun
    obtain ⟨constants, hfits, htotal, ⟨behind, hrest⟩, hpool, rfl⟩ :=
      (decode_eq_ok_iff hcount hpositive).mp hrun
    obtain rfl : pool.constants = constants :=
      constants_of_toList (eq_ofConstants_iff.mp hpool)
    refine ⟨hpool, htotal, ?_, rfl⟩
    rw [Cursor.advance_rest, ← hrest, List.drop_left]
  · intro pool hmade index
    obtain ⟨constants, hslots⟩ : ∃ constants, pool.slots.toList = none :: slotsOf constants := by
      rcases hmade with ⟨constants, hpool⟩ | ⟨after, hrun⟩
      · exact ⟨constants, eq_ofConstants_iff.mp hpool⟩
      · obtain ⟨word, hword, -⟩ := (decode_reads state pool after.cursor rfl).mp ⟨_, hrun⟩
        obtain ⟨read, ⟨hpool, -⟩, -⟩ := Language.mem_iSup.mp hword
        obtain ⟨constants, hslots, -⟩ := (wellFormed_iff pool).mp hpool
        exact ⟨constants, hslots⟩
    exact answers_of_slots hslots index

/-- A constant of two slots between others, and the same constant where it has one slot only. -/
theorem decode_long_between_and_last :
    let text := Constant.utf8 [67]
    let constants := [text, .long 5, .classRef 1]
    let pool := ofConstants constants
    (∃ after, decode (.start (.ofBytes (bytesOf 5 constants ++ [9]))) = .ok pool after ∧
      after.cursor.rest = [9]) ∧
    pool.constant 3 = .error (.reserved 3) ∧ pool.constant 4 = .ok (.classRef 1) ∧
    pool.constant 5 = .error (.outOfRange 5 5) ∧
    ∃ after, decode (.start (.ofBytes (bytesOf 3 [text] ++ (Constant.long 5).toBytes))) =
      .error ⟨.poolOverflow 2 3, 6⟩ after := by
  intro text constants pool
  have hfits : ∀ constant ∈ constants, constant.Fits := by
    simp [constants, text, Constant.Fits]
  obtain ⟨hread, -, -, hlookups⟩ :=
    decode_agrees_with_ofConstants (.start (.ofBytes (bytesOf 5 constants ++ [9]))) 5
  obtain ⟨-, -, hoverflow, -⟩ := decode_agrees_with_ofConstants
    (.start (.ofBytes (bytesOf 3 [text] ++ (Constant.long 5).toBytes))) 3
  have hanswers := hlookups pool (.inl ⟨constants, rfl⟩)
  obtain ⟨after, hrun, hrest, -⟩ := hread constants [9] hfits (by decide) rfl
  refine ⟨⟨after, hrun, hrest⟩, ?_, ?_, ?_, ?_⟩
  · exact (hanswers 3).reserved_iff.mpr ⟨by decide, .long 5, by decide, by decide⟩
  · have hinRange := (hanswers 4).outOfRange_iff.not.mpr (by decide)
    have hunreserved : pool.constant 4 ≠ .error (.reserved 4) := by
      intro hreserved
      obtain ⟨-, wide, -, hslot⟩ := (hanswers 4).reserved_iff.mp hreserved
      have hnone : pool.slots[4 - 1]? = some none := by decide
      rw [hnone] at hslot
      cases hslot
    obtain ⟨held, hslot, hanswer⟩ := (hanswers 4).otherwise hinRange hunreserved
    have hclass : pool.slots[4]? = some (some (.classRef 1)) := by decide
    rw [hclass] at hslot
    cases hslot
    exact hanswer
  · exact (hanswers 5).outOfRange_iff.mpr (by decide)
  · have hfirst : ∀ constant ∈ [text], constant.Fits := fun constant hmember ↦
      hfits constant (List.mem_cons.mpr (.inl (List.mem_singleton.mp hmember)))
    exact hoverflow [text] (.long 5) hfirst trivial (by decide) (by decide) List.prefix_rfl

/-! ### The number of slots -/

/-- A count of zero is read as the pool of no constants, which has its first slot all the same. -/
theorem decode_of_count_eq_zero {state : State}
    (hcount : BigEndian.ofUInt16 0 <+: state.cursor.rest) :
    decode state = .ok (ofConstants []) ⟨state.cursor.advance 2, state.log.push (.pool 1)⟩ := by
  rw [decode_of_count hcount]
  rfl

/-- A pool that was read has as many slots as the count before it says, whatever its constants are,
except that a count of zero gives one slot. -/
theorem size_of_decode {state after : State} {pool : ConstantPool}
    (hrun : decode state = .ok pool after) :
    ∃ count : UInt16, BigEndian.ofUInt16 count <+: state.cursor.rest ∧
      (pool.size = count.toNat ↔ count ≠ 0) ∧ pool.size = max 1 count.toNat := by
  obtain ⟨count, between, hread, -⟩ := bind_eq_ok_iff.mp hrun
  obtain ⟨hcount, -⟩ := u2_eq_ok_iff.mp hread
  refine ⟨count, hcount, ?_⟩
  by_cases hzero : count = 0
  · subst hzero
    rw [decode_of_count_eq_zero hcount] at hrun
    cases hrun
    have hsize : (ofConstants []).size = 1 := size_ofConstants []
    rw [hsize]
    decide
  · have hpositive : 1 ≤ count.toNat := by
      rw [Nat.one_le_iff_ne_zero, ← UInt16.toNat_zero, ne_eq, UInt16.toNat_inj]
      exact hzero
    obtain ⟨constants, -, htotal, -, rfl, -⟩ := (decode_eq_ok_iff hcount hpositive).mp hrun
    rw [size_ofConstants, htotal]
    exact ⟨iff_of_true rfl hzero, (max_eq_right hpositive).symm⟩

/-- With a constant of two slots among its constants a pool has the four slots that it declares. -/
theorem size_of_decode_long_at_end :
    let state : State := .start (.ofBytes (bytesOf 4 [.utf8 [67], .long 5] ++ [9]))
    ∃ pool after, decode state = .ok pool after ∧ pool.size = 4 := by
  intro state
  have hbegins : bytesOf 4 [.utf8 [67], .long 5] <+: state.cursor.rest := List.prefix_append _ [9]
  have hcount := (append_prefix_iff.mp hbegins).1
  have hrun := (decode_eq_ok_iff hcount (by decide)).mpr
    ⟨_, by simp [Constant.Fits], by decide, hbegins, rfl, rfl⟩
  obtain ⟨count, hdeclared, -, hsize⟩ := size_of_decode hrun
  obtain rfl : count = 4 := by
    obtain ⟨behind, hrest⟩ := hdeclared
    obtain ⟨behind', hrest'⟩ := hcount
    exact (BigEndian.ofUInt16_append_inj.mp (hrest.trans hrest'.symm)).1
  exact ⟨_, _, hrun, hsize⟩

/-- A pool does not always have as many slots as it declares: one that declares none is read. -/
theorem size_ne_declared_count :
    ¬∀ (state after : State) (pool : ConstantPool) (count : UInt16),
      BigEndian.ofUInt16 count <+: state.cursor.rest → decode state = .ok pool after →
      pool.size = count.toNat := by
  intro hall
  let state : State := .start (.ofBytes [0, 0])
  have hcount : BigEndian.ofUInt16 0 <+: state.cursor.rest := List.prefix_rfl
  have hsize := hall state _ _ 0 hcount (decode_of_count_eq_zero hcount)
  exact absurd hsize (by decide)

end ConstantPool

end ClassFormat
