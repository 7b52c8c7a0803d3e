import ClassFormat.Proofs.Kinds
import Mathlib.Tactic.SplitIfs

/-!
# Attributes between their header and their end

What a run of the attribute decoder is, as one step for its header and one for its frame. Behind a
header the name is looked up (`Attribute.decodeWithin_of_header`). The body of an attribute with a
known name is read through a cursor over its bytes and has to leave none of them
(`Attribute.decodeFramed_nameBytes`).
-/

set_option autoImplicit false
set_option relaxedAutoImplicit false

namespace ClassFormat.Attribute

open Decoder

/-! ### Headers -/

/-- What stands before the body of an attribute: the index of its name and a length. -/
def header (nameIndex : UInt16) (length : UInt32) : List UInt8 :=
  BigEndian.ofUInt16 nameIndex ++ BigEndian.ofUInt32 length

@[simp] theorem length_header (nameIndex : UInt16) (length : UInt32) :
    (header nameIndex length).length = 6 := by
  simp [header]

theorem drop_header (nameIndex : UInt16) (length : UInt32) (body : List UInt8) :
    (header nameIndex length ++ body).drop 6 = body :=
  List.drop_left' (length_header nameIndex length)

/-- What a header says can be read off the bytes that it begins. -/
theorem header_append_inj {nameIndex nameIndex' : UInt16} {length length' : UInt32}
    {body body' : List UInt8}
    (hsame : header nameIndex length ++ body = header nameIndex' length' ++ body') :
    nameIndex = nameIndex' ∧ length = length' ∧ body = body' := by
  rw [header, header, List.append_assoc, List.append_assoc, BigEndian.ofUInt16_append_inj,
    BigEndian.ofUInt32_append_inj] at hsame
  exact hsame

/-- Behind a header the name is looked up and the body is read. -/
theorem decodeWithin_of_header {pool : ConstantPool} {levels : Nat} {state : State}
    {nameIndex : UInt16} {length : UInt32} {body : List UInt8}
    (hrest : state.cursor.rest = header nameIndex length ++ body) :
    decodeWithin pool (levels + 1) state =
      (resolve state.cursor.absolute (pool.utf8 nameIndex.toNat) >>= fun name ↦
        decodeFramed (decodeWithin pool levels) state.cursor.absolute name length)
        ⟨state.cursor.advance 6, state.log⟩ := by
  have hindex : u2 state = .ok nameIndex ⟨state.cursor.advance 2, state.log⟩ :=
    u2_eq_ok_iff.mpr ⟨by simp [hrest, header, BigEndian.ofUInt16], rfl⟩
  have hlength : u4 ⟨state.cursor.advance 2, state.log⟩ =
      .ok length ⟨state.cursor.advance 6, state.log⟩ :=
    u4_eq_ok_iff.mpr ⟨by simp [hrest, header, BigEndian.ofUInt32], by simp⟩
  show (u2 >>= _) state = _
  rw [bind_of_ok hindex, bind_of_ok hlength]

/-- An attribute that is accepted has a header. -/
theorem header_of_decodeWithin {pool : ConstantPool} {levels : Nat} {state after : State}
    {item : Attribute} (hrun : decodeWithin pool levels state = .ok item after) :
    ∃ nameIndex length body, state.cursor.rest = header nameIndex length ++ body := by
  cases levels with
  | zero => cases hrun
  | succ levels =>
    simp only [decodeWithin, bind_eq_ok_iff] at hrun
    obtain ⟨_, _, hplace, nameIndex, _, hindex, length, _, hlength, -⟩ := hrun
    cases hplace
    obtain ⟨⟨behind, hbehind⟩, rfl⟩ := u2_eq_ok_iff.mp hindex
    obtain ⟨⟨body, hbody⟩, rfl⟩ := u4_eq_ok_iff.mp hlength
    refine ⟨nameIndex, length, body, ?_⟩
    have hdrop : behind = state.cursor.rest.drop 2 := by simp [← hbehind]
    rw [header, BigEndian.ofUInt16, BigEndian.ofUInt32, ← hbehind, hdrop, List.append_assoc, hbody]
    rfl

/-- The body of an attribute with a known name is read through a cursor over exactly its bytes, and
has to leave none of them. -/
theorem decodeFramed_nameBytes {nested : Decoder Attribute} {start : Nat} {kind : Kind}
    {length : UInt32} {state : State} {bytes : List UInt8} (hbytes : bytes.length = length.toNat)
    (hbegins : bytes <+: state.cursor.rest) :
    decodeFramed nested start kind.nameBytes length state =
      match decodeBody nested kind ⟨state.cursor.window bytes,
          state.log.push (.attributeBody kind.name length start)⟩ with
      | .ok item inner =>
        if inner.cursor.remaining = 0 then
          .ok item ⟨state.cursor.advance length.toNat, inner.log⟩
        else
          .error ⟨.attributeLength kind.name length inner.cursor.position, inner.cursor.absolute⟩
            ⟨state.cursor.advance length.toNat, inner.log⟩
      | .error error inner =>
        .error (overrunAs (.attributeLength kind.name length) state.cursor.absolute error)
          ⟨state.cursor.advance length.toNat, inner.log⟩ := by
  have htaken := (Cursor.take_eq_ok_iff state.cursor _ length.toNat bytes).mpr
    ⟨hbytes, hbegins, rfl⟩
  have hname := (Kind.ofNameBytes?_eq_some_iff _ kind).mpr rfl
  rw [decodeFramed, bounded_of_take_ok htaken, Kind.lossyUtf8_nameBytes, hname,
    bind_of_ok (record_run _ _)]
  dsimp only
  cases hbody : decodeBody nested kind ⟨state.cursor.window bytes,
      state.log.push (.attributeBody kind.name length start)⟩ with
  | error error inner =>
    rw [bind_of_error (measured_of_error hbody)]
  | ok item inner =>
    rw [bind_of_ok (measured_of_ok hbody), bind_of_ok (remaining_run _)]
    by_cases hleft : inner.cursor.remaining = 0
    · simp [hleft]
    · simp [hleft, overrunAs, Cursor.window, Cursor.ofBytes]

/-- A body that is not there in full is not read. -/
theorem decodeFramed_of_take_error {nested : Decoder Attribute} {start : Nat} {name : List UInt8}
    {length : UInt32} {state : State} {error : DecodeError}
    (hshort : state.cursor.take length.toNat = .error error) :
    decodeFramed nested start name length state = .error error state :=
  bounded_of_take_error hshort

/-- An attribute without a known name is refused at its header, once its bytes are there. -/
theorem decodeFramed_unknown {nested : Decoder Attribute} {start : Nat} {name : List UInt8}
    {length : UInt32} {state : State} {bytes : List UInt8} {behind : Cursor}
    (htaken : state.cursor.take length.toNat = .ok (bytes, behind))
    (hname : Kind.ofNameBytes? name = none) :
    decodeFramed nested start name length state =
      .error ⟨.unknownAttribute (Text.LossyUtf8.decode name), start⟩
        ⟨behind, state.log.push (.attributeBody (Text.LossyUtf8.decode name) length start)⟩ := by
  rw [decodeFramed, bounded_of_take_ok htaken, hname, bind_of_ok (record_run _ _)]
  rfl

/-- An attribute that is accepted has a known name, and its body takes exactly its bytes. -/
theorem decodeFramed_eq_ok {nested : Decoder Attribute} {start : Nat} {name : List UInt8}
    {length : UInt32} {state after : State} {item : Attribute}
    (hrun : decodeFramed nested start name length state = .ok item after) :
    ∃ kind bytes inner, name = kind.nameBytes ∧ bytes.length = length.toNat ∧
      bytes <+: state.cursor.rest ∧
      decodeBody nested kind ⟨state.cursor.window bytes,
        state.log.push (.attributeBody kind.name length start)⟩ = .ok item inner ∧
      inner.cursor.remaining = 0 ∧ after = ⟨state.cursor.advance length.toNat, inner.log⟩ := by
  cases htaken : state.cursor.take length.toNat with
  | error error =>
    rw [decodeFramed_of_take_error htaken] at hrun
    cases hrun
  | ok taken =>
    obtain ⟨bytes, behind⟩ := taken
    obtain ⟨hbytes, hbegins, rfl⟩ := (Cursor.take_eq_ok_iff _ _ _ _).mp htaken
    cases hname : Kind.ofNameBytes? name with
    | none =>
      rw [decodeFramed_unknown htaken hname] at hrun
      cases hrun
    | some kind =>
      obtain rfl := (Kind.ofNameBytes?_eq_some_iff name kind).mp hname
      rw [decodeFramed_nameBytes hbytes hbegins] at hrun
      cases hbody : decodeBody nested kind ⟨state.cursor.window bytes,
          state.log.push (.attributeBody kind.name length start)⟩ with
      | error error inner =>
        rw [hbody] at hrun
        cases hrun
      | ok value inner =>
        rw [hbody] at hrun
        dsimp only at hrun
        split_ifs at hrun with hleft
        cases hrun
        exact ⟨kind, bytes, inner, rfl, hbytes, hbegins, hbody, hleft, rfl⟩

end ClassFormat.Attribute
