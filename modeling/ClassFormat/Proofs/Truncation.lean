import ClassFormat.Proofs.AttributeFrame

/-!
# Attributes that are cut off

The end of the input is reported of an attribute only for its header and for its body as a whole:
`Attribute.CutOff` lists how bytes may be missing, and `Attribute.decode_truncated_iff` says that
these are the cases in which an attribute is truncated. A read within the body never is, at any
depth of nesting: what the body lacks is a matter of the length in the header.
-/

set_option autoImplicit false
set_option relaxedAutoImplicit false

namespace ClassFormat.Attribute

open Decoder

/-- Bytes of an attribute are missing: `requested` of them were to be read at `offset`. -/
inductive CutOff (pool : ConstantPool) (cursor : Cursor) : (requested offset : Nat) → Prop
  /-- The index of the name is not there. -/
  | name (hshort : cursor.rest.length < 2) : CutOff pool cursor 2 cursor.absolute
  /-- The length is not there. -/
  | length (hindex : 2 ≤ cursor.rest.length) (hshort : cursor.rest.length < 6) :
    CutOff pool cursor 4 (cursor.absolute + 2)
  /-- The header is there and has a name, and the body is not there in full. -/
  | body {nameIndex : UInt16} {length : UInt32} {name : List UInt8}
    (hheader : header nameIndex length <+: cursor.rest)
    (hname : pool.utf8 nameIndex.toNat = .ok name)
    (hshort : cursor.rest.length < 6 + length.toNat) :
    CutOff pool cursor length.toNat (cursor.absolute + 6)

/-- Six bytes and more begin with a header. -/
theorem exists_header {bytes : List UInt8} (hlength : 6 ≤ bytes.length) :
    ∃ nameIndex length body, bytes = header nameIndex length ++ body := by
  have hindex : (bytes.take 2).length = 2 := List.length_take_of_le (by omega)
  have hdeclared : ((bytes.drop 2).take 4).length = 4 :=
    List.length_take_of_le (by rw [List.length_drop]; omega)
  obtain ⟨nameIndex, hnameIndex⟩ := BigEndian.exists_ofUInt16 hindex
  obtain ⟨length, hlength⟩ := BigEndian.exists_ofUInt32 hdeclared
  refine ⟨nameIndex, length, (bytes.drop 2).drop 4, ?_⟩
  rw [header, ← hnameIndex, ← hlength, List.append_assoc, List.take_append_drop,
    List.take_append_drop]

section Levels

variable {pool : ConstantPool} {levels requested offset : Nat} {state : State}

theorem decodeWithin_of_lt_two (hshort : state.cursor.rest.length < 2) :
    decodeWithin pool (levels + 1) state =
      .error ⟨state.cursor.shortage 2, state.cursor.absolute⟩ state := by
  show (u2 >>= _) state = _
  exact bind_of_error (u2_of_short hshort)

theorem decodeWithin_of_lt_six (hindex : 2 ≤ state.cursor.rest.length)
    (hshort : state.cursor.rest.length < 6) :
    decodeWithin pool (levels + 1) state =
      .error ⟨state.cursor.shortage 4, state.cursor.absolute + 2⟩
        ⟨state.cursor.advance 2, state.log⟩ := by
  obtain ⟨nameIndex, hnameIndex⟩ :=
    BigEndian.exists_ofUInt16 (List.length_take_of_le hindex)
  have hbegins : BigEndian.ofUInt16 nameIndex <+: state.cursor.rest :=
    hnameIndex ▸ List.take_prefix 2 _
  have hread : u2 state = .ok nameIndex ⟨state.cursor.advance 2, state.log⟩ :=
    u2_eq_ok_iff.mpr ⟨hbegins, rfl⟩
  have hfailed := @u4_of_short ⟨state.cursor.advance 2, state.log⟩
    (by rw [Cursor.advance_rest, List.length_drop]; omega)
  rw [Cursor.advance_absolute] at hfailed
  show (u2 >>= _) state = _
  rw [bind_of_ok hread, bind_of_error hfailed]
  rfl

/-- Behind a header the end of the input is met only where the name is found and the body as a whole
is not there. -/
theorem decodeWithin_of_header_truncated_iff {nameIndex : UInt16} {length : UInt32}
    {body : List UInt8} (hrest : state.cursor.rest = header nameIndex length ++ body) :
    (∃ after, decodeWithin pool (levels + 1) state =
      .error ⟨.truncated requested, offset⟩ after) ↔
        (∃ name, pool.utf8 nameIndex.toNat = .ok name) ∧ body.length < length.toNat ∧
          state.cursor.ending = .clean ∧ requested = length.toNat ∧
          offset = state.cursor.absolute + 6 := by
  have hbehind : (state.cursor.advance 6).rest = body := by
    rw [Cursor.advance_rest, hrest, drop_header]
  rw [decodeWithin_of_header hrest]
  cases hname : pool.utf8 nameIndex.toNat with
  | error failure =>
    have hfailed : resolve state.cursor.absolute (.error failure : Except LookupError (List UInt8))
        ⟨state.cursor.advance 6, state.log⟩ =
          .error ⟨.lookup failure, state.cursor.absolute⟩ ⟨state.cursor.advance 6, state.log⟩ := rfl
    rw [bind_of_error hfailed]
    simp
  | ok name =>
    rw [bind_of_ok (resolve_eq_ok_iff.mpr ⟨rfl, rfl⟩)]
    constructor
    · intro ⟨after, hrun⟩
      obtain ⟨hshort, herror⟩ := (Cursor.take_eq_error_iff _ _ _).mp
        (take_of_bounded_error (fun _ ↦ rfl) hrun rfl)
      rw [hbehind] at hshort
      obtain ⟨hclean, hrequested, hoffset⟩ := Cursor.mk_shortage_eq_truncated_iff.mp herror.symm
      rw [Cursor.advance_absolute] at hoffset
      exact ⟨⟨name, rfl⟩, hshort, hclean, hrequested, hoffset⟩
    · intro ⟨_, hshort, hclean, hrequested, hoffset⟩
      refine ⟨_, decodeFramed_of_take_error ((Cursor.take_eq_error_iff _ _ _).mpr ⟨?_, ?_⟩)⟩
      · rwa [hbehind]
      · rw [Cursor.advance_absolute]
        exact (Cursor.mk_shortage_eq_truncated_iff.mpr ⟨hclean, hrequested, hoffset⟩).symm

theorem decodeWithin_truncated_iff :
    (∃ after, decodeWithin pool (levels + 1) state =
      .error ⟨.truncated requested, offset⟩ after) ↔
        state.cursor.ending = .clean ∧ CutOff pool state.cursor requested offset := by
  by_cases hname : state.cursor.rest.length < 2
  · rw [decodeWithin_of_lt_two hname]
    simp only [EStateM.Result.error.injEq, exists_and_left, exists_eq', and_true,
      Cursor.mk_shortage_eq_truncated_iff]
    refine and_congr_right fun _ ↦ ⟨?_, fun hcutOff ↦ ?_⟩
    · rintro ⟨rfl, rfl⟩
      exact .name hname
    · cases hcutOff with
      | name hshort => exact ⟨rfl, rfl⟩
      | length hindex hshort => omega
      | body hheader hfound hshort =>
        have hlength := hheader.length_le
        rw [length_header] at hlength
        omega
  by_cases hlength : state.cursor.rest.length < 6
  · rw [decodeWithin_of_lt_six (Nat.le_of_not_lt hname) hlength]
    simp only [EStateM.Result.error.injEq, exists_and_left, exists_eq', and_true,
      Cursor.mk_shortage_eq_truncated_iff]
    refine and_congr_right fun _ ↦ ⟨?_, fun hcutOff ↦ ?_⟩
    · rintro ⟨rfl, rfl⟩
      exact .length (Nat.le_of_not_lt hname) hlength
    · cases hcutOff with
      | name hshort => omega
      | length hindex hshort => exact ⟨rfl, rfl⟩
      | body hheader hfound hshort =>
        have hlong := hheader.length_le
        rw [length_header] at hlong
        omega
  · have hlong := Nat.le_of_not_lt hlength
    obtain ⟨nameIndex, length, body, hrest⟩ := exists_header hlong
    rw [decodeWithin_of_header_truncated_iff hrest]
    have hwhole : state.cursor.rest.length = 6 + body.length := by
      rw [hrest, List.length_append, length_header]
    constructor
    · rintro ⟨⟨name, hname⟩, hbody, hclean, rfl, rfl⟩
      exact ⟨hclean, .body ⟨body, hrest.symm⟩ hname (by omega)⟩
    · intro ⟨hclean, hcutOff⟩
      cases hcutOff with
      | name hshort => omega
      | length hindex hshort => omega
      | body hheader hname hshort =>
        obtain ⟨body', hrest'⟩ := hheader
        obtain ⟨rfl, rfl, rfl⟩ := header_append_inj (hrest'.trans hrest)
        exact ⟨⟨_, hname⟩, by omega, hclean, rfl, rfl⟩

end Levels

/-- The end of the input is reported of an attribute exactly if the input ends and bytes of the
header are missing, or the body as a whole is not there, and then at the place where these bytes
were to be read. -/
theorem decode_truncated_iff {pool : ConstantPool} {state : State} {requested offset : Nat}
    (hdepth : state.cursor.depth ≤ maxNesting) :
    (∃ after, decode pool state = .error ⟨.truncated requested, offset⟩ after) ↔
      state.cursor.ending = .clean ∧ CutOff pool state.cursor requested offset := by
  have hlevels : maxNesting + 1 - state.cursor.depth = maxNesting - state.cursor.depth + 1 := by
    omega
  show (∃ after, decodeWithin pool (maxNesting + 1 - state.cursor.depth) state = _) ↔ _
  rw [hlevels]
  exact decodeWithin_truncated_iff

end ClassFormat.Attribute
