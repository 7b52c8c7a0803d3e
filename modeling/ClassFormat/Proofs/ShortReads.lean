import ClassFormat.Proofs.AttributeFrame
import ClassFormat.Proofs.Plain.Decoders

/-!
# Reads that fail for want of bytes

A run that is cut off stops before the read that fails, and the number of bytes in its error is the
size of this read (`Decoder.StopsShort`). Every decoder has this property. A decoder that is given a
part of an input and no other bytes may therefore be followed to the read with which it crosses the
end of the part (`Crossing`), or to the bytes of the part that it leaves (`Leaving`).
-/

set_option autoImplicit false
set_option relaxedAutoImplicit false

namespace ClassFormat

namespace Decoder

variable {α β : Type} {item : Decoder α}

/-! ### The read that fails -/

/-- A run fails in a read of `requested` bytes at `offset`: it stops before this read, and there the
bytes are missing. -/
def RunsShort (item : Decoder α) (state : State) (requested offset : Nat) : Prop :=
  ∃ after, item state = .error ⟨.truncated requested, offset⟩ after ∧
    after.cursor.take requested = .error ⟨.truncated requested, offset⟩

/-- Where a run is cut off, it stops before the read that its error is about. -/
def StopsShort (item : Decoder α) : Prop :=
  ∀ state requested offset after, item state = .error ⟨.truncated requested, offset⟩ after →
    after.cursor.take requested = .error ⟨.truncated requested, offset⟩

theorem StopsShort.runsShort (hitem : StopsShort item) {state after : State}
    {requested offset : Nat} (hrun : item state = .error ⟨.truncated requested, offset⟩ after) :
    RunsShort item state requested offset :=
  ⟨after, hrun, hitem state requested offset after hrun⟩

theorem StopsShort.pure (value : α) : StopsShort (Pure.pure value) := by
  rintro state requested offset after ⟨⟩

theorem StopsShort.bind {next : α → Decoder β} (hitem : StopsShort item)
    (hnext : ∀ value, StopsShort (next value)) : StopsShort (item >>= next) := by
  intro state requested offset after hrun
  cases hfirst : item state with
  | ok value between =>
    rw [bind_of_ok hfirst] at hrun
    exact hnext value between requested offset after hrun
  | error error between =>
    rw [bind_of_error hfirst] at hrun
    cases hrun
    exact hitem state requested offset after hfirst

/-- The size of a read that fails is the one in its error. -/
theorem StopsShort.take (count : Nat) : StopsShort (Decoder.take count) := by
  intro state requested offset after hrun
  unfold Decoder.take at hrun
  cases htaken : state.cursor.take count with
  | ok taken =>
    rw [htaken] at hrun
    cases hrun
  | error error =>
    rw [htaken] at hrun
    cases hrun
    obtain ⟨-, herror⟩ := (Cursor.take_eq_error_iff _ _ _).mp htaken
    obtain ⟨-, rfl, -⟩ := Cursor.mk_shortage_eq_truncated_iff.mp herror.symm
    exact htaken

theorem StopsShort.failAt (place : Nat) {cause : DecodeError.Cause}
    (hcause : cause.requested? = none) : StopsShort (Decoder.failAt place cause : Decoder α) := by
  intro state requested offset after hrun
  cases hrun
  cases hcause

theorem StopsShort.offset_bind {next : Nat → Decoder α} (hnext : ∀ place, StopsShort (next place)) :
    StopsShort (Decoder.offset >>= next) :=
  fun state ↦ hnext state.cursor.absolute state

theorem closed_stopsShort : Closed fun _ item ↦ StopsShort item where
  pure := .pure
  bind := .bind
  take := .take
  nesting _ := .offset_bind fun place ↦ .failAt place rfl
  tagged hnext := by
    have hbyte : StopsShort u1 :=
      .bind (.bind (.take 1) fun _ ↦ .pure _) fun _ ↦ .pure _
    exact .offset_bind fun place ↦ .bind hbyte fun byte ↦ (hnext place place byte).holds
      fun hcause ↦ .failAt place (DecodeError.Cause.requested?_of_byte? hcause)

theorem Plain.stopsShort (hitem : Plain item) : StopsShort item :=
  hitem _ closed_stopsShort

theorem StopsShort.times (hitem : StopsShort item) (count : Nat) :
    StopsShort (Decoder.times count item) := by
  induction count with
  | zero => exact .pure []
  | succ count ih =>
    rw [times_succ]
    exact .bind hitem fun _ ↦ .bind ih fun _ ↦ .pure _

theorem StopsShort.counted (hitem : StopsShort item) : StopsShort (Decoder.counted item) :=
  .bind Plain.u2.stopsShort fun count ↦ .times hitem count.toNat

theorem StopsShort.measured (hitem : StopsShort item) : StopsShort (Decoder.measured item) :=
  .bind (fun _ _ _ _ hrun ↦ nomatch hrun) fun _ ↦ .bind hitem fun _ ↦
    .bind (fun _ _ _ _ hrun ↦ nomatch hrun) fun _ ↦ .pure _

/-- Of a part of the input only the read of the part as a whole is reported so. -/
theorem StopsShort.bounded (length : Nat) {overrun : Nat → DecodeError.Cause} {body : Decoder α}
    (hknown : ∀ consumed, (overrun consumed).requested? = none) :
    StopsShort (Decoder.bounded length overrun body) := by
  intro state requested offset after hrun
  have htaken := take_of_bounded_error hknown hrun rfl
  rw [bounded_of_take_error htaken] at hrun
  cases hrun
  obtain ⟨-, herror⟩ := (Cursor.take_eq_error_iff _ _ _).mp htaken
  obtain ⟨-, rfl, -⟩ := Cursor.mk_shortage_eq_truncated_iff.mp herror.symm
  exact htaken

end Decoder

open Decoder

theorem InstructionList.decode_stopsShort (length : UInt32) :
    StopsShort (InstructionList.decode length) := by
  suffices hloop : ∀ address done, StopsShort (decodeOnto length address done) from hloop 0 []
  intro address done
  induction address, done using decodeOnto.induct length with
  | case1 address done hbefore ih =>
    rw [decodeOnto, if_pos hbefore]
    exact .bind Opcode.decode_plain.stopsShort fun opcode ↦
      .bind (.measured (Operands.decode_plain address opcode.form).stopsShort) fun sized ↦
        ih opcode sized.1 sized.2
  | case2 done hbefore =>
    rw [decodeOnto, if_neg hbefore, if_pos rfl]
    exact .pure _
  | case3 address done hbefore hend =>
    rw [decodeOnto, if_neg hbefore, if_neg hend]
    exact .offset_bind fun place ↦ .failAt place rfl

namespace Attribute

theorem decodeBody_stopsShort {nested : Decoder Attribute} (hnested : StopsShort nested)
    (kind : Kind) : StopsShort (decodeBody nested kind) := by
  by_cases hkind : kind = .code
  · subst hkind
    refine .bind (?_ : StopsShort (decodeCode nested)) fun _ ↦ .pure _
    exact .bind Plain.u2.stopsShort fun _ ↦ .bind Plain.u2.stopsShort fun _ ↦
      .bind Plain.u4.stopsShort fun length ↦ .bind (.bounded length.toNat fun _ ↦ rfl) fun _ ↦
        .bind (.counted ExceptionHandler.decode_plain.stopsShort) fun _ ↦
          .bind (.counted hnested) fun _ ↦ .pure _
  · exact (decodeBody_plain nested hkind).stopsShort

/-- A read within the body of an attribute is not reported so outside of it, so that no induction on
the levels is needed. -/
theorem decodeWithin_stopsShort (pool : ConstantPool) (levels : Nat) :
    StopsShort (decodeWithin pool levels) := by
  cases levels with
  | zero => exact (Plain.nesting maxNesting).stopsShort
  | succ levels =>
    refine .offset_bind fun start ↦ .bind Plain.u2.stopsShort fun nameIndex ↦
      .bind Plain.u4.stopsShort fun length ↦ .bind ?_ fun name ↦ .bounded length.toNat fun _ ↦ rfl
    cases pool.utf8 nameIndex.toNat with
    | ok name => exact .pure name
    | error failure => exact .failAt start rfl

theorem decode_stopsShort (pool : ConstantPool) : StopsShort (Attribute.decode pool) :=
  fun state ↦ decodeWithin_stopsShort pool (maxNesting + 1 - state.cursor.depth) state

end Attribute

/-! ### Parts of an input -/

/-- The cursor over the `length` bytes of an input from `start` on, inside of `depth` others. -/
def Cursor.part (input : List UInt8) (start length depth : Nat) : Cursor :=
  { ofBytes ((input.drop start).take length) with origin := start, depth }

/-- The bytes behind a cursor are a part of the input that it stands in. -/
theorem Cursor.window_eq_part {cursor : Cursor} {input bytes : List UInt8}
    (hbegins : bytes <+: input.drop cursor.absolute) :
    cursor.window bytes = part input cursor.absolute bytes.length (cursor.depth + 1) := by
  rw [part, ← List.prefix_iff_eq_take.mp hbegins]
  rfl

variable {α : Type}

/-- A decoder is given the `length` bytes of the input from `start` on, and comes at `offset` to a
read that crosses their end. With the bytes of this read it would take `needed` of them. -/
structure Crossing (input : List UInt8) (item : Decoder α) (start length offset needed : Nat) :
    Prop where
  stop_le : start + length ≤ input.length
  start_le : start ≤ offset
  le_stop : offset ≤ start + length
  /-- The size of the read that fails makes up the number. -/
  read : ∃ depth log requested,
    RunsShort item ⟨.part input start length depth, log⟩ requested offset ∧
      start + length < offset + requested ∧ needed = offset - start + requested

theorem Crossing.length_lt {input : List UInt8} {item : Decoder α}
    {start length offset needed : Nat}
    (hcrossing : Crossing input item start length offset needed) : length < needed := by
  obtain ⟨-, -, requested, -, hread, rfl⟩ := hcrossing.read
  have hstart := hcrossing.start_le
  omega

/-- A decoder is given the `length` bytes of the input from `start` on, takes `taken` of them, and
leaves those from `offset` on. -/
structure Leaving (input : List UInt8) (item : Decoder α) (start length offset taken : Nat) :
    Prop where
  stop_le : start + length ≤ input.length
  taken_lt : taken < length
  offset_eq : offset = start + taken
  run : ∃ depth log value after, item ⟨.part input start length depth, log⟩ = .ok value after ∧
    after.cursor.position = taken

end ClassFormat
