import ClassFormat.Proofs.Extension
import ClassFormat.Proofs.ErrorPlace
import ClassFormat.Proofs.Plain.Decoders

/-!
# Every error is borne out by the input

Every decoder accounts for its errors on every stretch of an input. For plain decoders this is
`Decoder.Plain.accounts`; here are the others. An error about the name of an attribute names the
place of its header, and the numbers in an error about a length are those of the body it is about.

The main statement is `ClassFile.borneOut_of_error`, for class files.
-/

set_option autoImplicit false
set_option relaxedAutoImplicit false

namespace ClassFormat

open Stretch

variable {stretch : Stretch}

/-! ### Instructions -/

/-- An instruction list that does not end at its length has been read beyond it. -/
theorem InstructionList.decodeOnto_accounts (length : UInt32) (address : Nat)
    (done : List Instruction) : stretch.Accounts (decodeOnto length address done) := by
  induction address, done using decodeOnto.induct length with
  | case1 address done hbefore ih =>
    rw [decodeOnto, if_pos hbefore]
    exact .bind Opcode.decode_plain.accounts fun opcode ↦
      .bind (.measured (Operands.decode_plain address opcode.form).accounts) fun sized ↦
        ih opcode sized.1 sized.2
  | case2 done hbefore =>
    rw [decodeOnto, if_neg hbefore, if_pos rfl]
    exact .pure _
  | case3 address done hbefore hend =>
    rw [decodeOnto, if_neg hbefore, if_neg hend]
    refine .fail fun place _ _ ↦ ?_
    show length.toNat < address
    omega

theorem InstructionList.decode_accounts (length : UInt32) :
    stretch.Accounts (InstructionList.decode length) :=
  decodeOnto_accounts length 0 []

/-- Instructions that run out of their bytes would have taken more than these. -/
theorem InstructionList.bounded_accounts (length : UInt32) :
    stretch.Accounts (Decoder.bounded length.toNat (.codeLength length) (decode length)) :=
  .bounded (fun _ _ _ ↦ decode_accounts length) (decode_stopsShort length)
    fun _ _ _ hcrossing ↦ hcrossing.length_lt

/-! ### Attributes -/

namespace Attribute

variable {nested : Decoder Attribute}

theorem decodeCode_accounts (hnested : stretch.Accounts nested) :
    stretch.Accounts (decodeCode nested) :=
  .bind .u2 fun _ ↦ .bind .u2 fun _ ↦ .bind .u4 fun length ↦
    .bind (InstructionList.bounded_accounts length) fun _ ↦
      .bind (.counted ExceptionHandler.decode_plain.accounts) fun _ ↦
        .bind (.counted hnested) fun _ ↦ .pure _

theorem decodeBody_accounts (hnested : stretch.Accounts nested) (kind : Kind) :
    stretch.Accounts (decodeBody nested kind) := by
  by_cases hkind : kind = .code
  · subst hkind
    exact .bind (decodeCode_accounts hnested) fun _ ↦ .pure _
  · exact (decodeBody_plain nested hkind).accounts

section Frames

variable {names : ConstantPool} {start : Nat} {nameIndex : UInt16} {length : UInt32}
  {state : Decoder.State}

/-- A body of a known kind accounts for its errors, and so does its frame for what the body is found
to take of its bytes. -/
theorem decodeFramed_results_of_kind
    (hnested : ∀ first last (hlast : last ≤ stretch.stop),
      (stretch.part first last hlast).Accounts nested)
    (hbody : ∀ kind bytes log, decodeBody nested kind ⟨state.cursor.window bytes, log⟩ =
      decodeBody (Attribute.decode names) kind ⟨state.cursor.window bytes, log⟩)
    (hpool : stretch.pool = some names) (hholds : stretch.Holds state.cursor)
    (hplace : state.cursor.absolute = start + 6)
    (hheader : header nameIndex length <+: stretch.input.drop start) {kind : Kind}
    (hname : names.utf8 nameIndex.toNat = .ok kind.nameBytes) {bytes : List UInt8}
    (hlength : bytes.length = length.toNat) (hbegins : bytes <+: state.cursor.rest) :
    stretch.Results (decodeFramed nested start kind.nameBytes length state) := by
  have hbehind := hholds.advance (hlength ▸ hbegins.length_le)
  have hlast : state.cursor.absolute + bytes.length ≤ stretch.stop := by
    simpa [hlength] using hbehind.le_stop
  have hresults := decodeBody_accounts (hnested _ _ hlast) kind
    ⟨state.cursor.window bytes, state.log.push (.attributeBody kind.name length start)⟩
    (hholds.window hbegins hlast)
  rw [decodeFramed_nameBytes hlength hbegins]
  rw [hbody] at hresults ⊢
  cases hrun : decodeBody (Attribute.decode names) kind ⟨state.cursor.window bytes,
      state.log.push (.attributeBody kind.name length start)⟩ with
  | error error inner =>
    rw [hrun] at hresults
    refine Explains.overrunAs hholds.start_le hresults fun offset requested herror ↦ ?_
    subst herror
    have hcrossing := hresults.crossing (hholds.prefix_drop hbegins)
      (decodeBody_stopsShort (decode_stopsShort names) kind) hrun
    rw [hlength, hplace] at hcrossing
    rw [hplace]
    exact ⟨names, nameIndex, kind, start, hpool, hheader, hname, rfl, .inr hcrossing⟩
  | ok item inner =>
    dsimp only
    split_ifs with hleft
    · exact hbehind
    · obtain ⟨count, hcount, hcursor⟩ := Decoder.cursor_eq_advance
        (fun sim ↦ decodeBody_relates sim (decode_relates sim names) kind) rfl hrun
      have hstart := hholds.start_le
      have hstop := stretch.stop_le
      have hposition : inner.cursor.position = count := by simp [hcursor]
      have habsolute : inner.cursor.absolute = start + 6 + count := by simp [hcursor, hplace]
      have hleftover : count < length.toNat := by
        simp [hcursor, Cursor.remaining] at hleft hcount
        omega
      rw [Cursor.window_eq_part (hholds.prefix_drop hbegins), hlength, hplace] at hrun
      rw [hposition, habsolute]
      refine ⟨by dsimp only; omega, by dsimp only; omega, names, nameIndex, kind, start, hpool,
        hheader, hname, rfl, .inl ⟨by omega, hleftover, rfl, _, _, _, _, hrun, hposition⟩⟩

/-- A frame accounts for its errors if it stands behind the header that its numbers are from. -/
theorem decodeFramed_results
    (hnested : ∀ first last (hlast : last ≤ stretch.stop),
      (stretch.part first last hlast).Accounts nested)
    (hbody : ∀ kind bytes log, decodeBody nested kind ⟨state.cursor.window bytes, log⟩ =
      decodeBody (Attribute.decode names) kind ⟨state.cursor.window bytes, log⟩)
    (hpool : stretch.pool = some names) (hholds : stretch.Holds state.cursor)
    (hstart : stretch.start ≤ start) (hplace : state.cursor.absolute = start + 6)
    (hheader : header nameIndex length <+: stretch.input.drop start) {name : List UInt8}
    (hname : names.utf8 nameIndex.toNat = .ok name) :
    stretch.Results (decodeFramed nested start name length state) := by
  cases htaken : state.cursor.take length.toNat with
  | error error =>
    rw [decodeFramed_of_take_error htaken]
    exact hholds.explains_of_take htaken
  | ok taken =>
    obtain ⟨bytes, behind⟩ := taken
    cases hknown : Kind.ofNameBytes? name with
    | none =>
      rw [decodeFramed_unknown htaken hknown]
      have hstop : start ≤ stretch.stop := by
        have hplace' := hholds.le_stop
        omega
      refine ⟨hstart, hstop, names, nameIndex, name, hpool, ?_, hname, hknown, rfl⟩
      exact (List.prefix_append _ _).trans hheader
    | some kind =>
      obtain rfl := (Kind.ofNameBytes?_eq_some_iff name kind).mp hknown
      obtain ⟨hlength, hbegins, -⟩ := (Cursor.take_eq_ok_iff _ _ _ _).mp htaken
      exact decodeFramed_results_of_kind hnested hbody hpool hholds hplace hheader hname
        hlength hbegins

end Frames

/-- Attributes account for their errors to any depth. The bodies that they lie in are parts of the
stretch, so the induction is on the levels for all stretches at once. -/
theorem decodeWithin_accounts {pool : ConstantPool} (hpool : stretch.pool = some pool)
    {levels : Nat} (hlevels : levels = maxNesting + 1 - stretch.depth) :
    stretch.Accounts (decodeWithin pool levels) := by
  induction levels generalizing stretch with
  | zero => exact .fail fun _ _ _ ↦ trivial
  | succ levels ih =>
    intro state hholds
    show stretch.Results ((Decoder.u2 >>= _) state)
    refine (Accounts.u2 state hholds).bind fun nameIndex _ hindex hbehindIndex ↦ ?_
    obtain ⟨hindex', rfl⟩ := Decoder.u2_eq_ok_iff.mp hindex
    refine (Accounts.u4 _ hbehindIndex).bind fun length _ hlength hbehindHeader ↦ ?_
    obtain ⟨hlength', rfl⟩ := Decoder.u4_eq_ok_iff.mp hlength
    have hheader : header nameIndex length <+: stretch.input.drop state.cursor.absolute := by
      have hbehind : BigEndian.ofUInt32 length <+:
          state.cursor.rest.drop (BigEndian.ofUInt16 nameIndex).length := by
        rw [BigEndian.length_ofUInt16]
        exact hlength'
      exact hholds.prefix_drop (append_prefix_iff.mpr ⟨hindex', hbehind⟩)
    cases hname : pool.utf8 nameIndex.toNat with
    | error failure =>
      refine ⟨hholds.start_le, hholds.le_stop, pool, nameIndex, hpool, ?_, hname⟩
      exact (List.prefix_append _ _).trans hheader
    | ok name =>
      have hinner : levels = maxNesting + 1 - (stretch.depth + 1) := by omega
      refine decodeFramed_results (fun first last hlast ↦ ih hpool hinner) (fun kind bytes log ↦ ?_)
        hpool hbehindHeader hholds.start_le (by simp) hheader hname
      refine decodeBody_decodeWithin kind ?_
      rw [hinner, ← hholds.depth_eq]
      rfl

theorem decode_accounts {pool : ConstantPool} (hpool : stretch.pool = some pool) :
    stretch.Accounts (Attribute.decode pool) :=
  .depth_bind (decodeWithin_accounts hpool rfl)

end Attribute

theorem Attributes.decode_accounts {pool : ConstantPool} (hpool : stretch.pool = some pool) :
    stretch.Accounts (Attributes.decode (some pool)) :=
  .counted (Attribute.decode_accounts hpool)

theorem Member.decode_accounts {declared : Declared} {pool : ConstantPool}
    (hpool : stretch.pool = some pool) :
    stretch.Accounts (Member.decode (some pool) : Decoder (Member declared)) :=
  .bind .u2 fun _ ↦ .bind .u2 fun _ ↦ .bind .u2 fun _ ↦
    .bind (Attributes.decode_accounts hpool) fun _ ↦ .pure _

/-! ### Class files -/

/-- A constant of two slots stands behind one of two tags. -/
theorem Constant.tag_of_isWide {state after : Decoder.State} {constant : Constant}
    (hrun : Constant.decode state = .ok constant after) (hwide : constant.isWide) :
    ∃ tag, [tag] <+: state.cursor.rest ∧ (tag = 5 ∨ tag = 6) := by
  simp only [Constant.decode, Decoder.bind_eq_ok_iff] at hrun
  obtain ⟨_, _, hplace, tag, _, htag, hpayload⟩ := hrun
  cases hplace
  obtain ⟨hbegins, -⟩ := Decoder.u1_eq_ok_iff.mp htag
  refine ⟨tag, hbegins, ?_⟩
  cases hkind : Kind.ofTag? tag with
  | none =>
    rw [hkind] at hpayload
    cases hpayload
  | some kind =>
    rw [hkind] at hpayload
    obtain rfl := (Kind.ofTag?_eq_some_iff tag kind).mp hkind
    have hconstant : constant.kind = kind := decodePayload_yields kind _ _ _ hpayload
    cases constant <;> simp [isWide] at hwide <;> simp [← hconstant, Constant.kind, Kind.tag]

/-- Where a constant of two slots finds one only, the count that the pool began with is one more
than the slot. -/
theorem ConstantPool.decodeOnto_accounts {count : Nat} (hlt : count < 65536)
    (hcount : BigEndian.ofNat 2 count <+: stretch.input.drop 8) (left : Nat)
    (slots : Array (Option Constant)) (hslots : slots.size + left = count) :
    stretch.Accounts (decodeOnto left slots) := by
  induction left using Nat.strongRecOn generalizing slots with
  | ind left ih =>
    cases left with
    | zero => exact .pure slots
    | succ left =>
      intro state hholds
      unfold decodeOnto
      show stretch.Results ((Constant.decode >>= _) state)
      refine (Constant.decode_plain.accounts state hholds).bind fun constant after hrun hafter ↦ ?_
      split
      · rename_i hwide
        cases left with
        | zero =>
          obtain ⟨tag, hbegins, htag⟩ := Constant.tag_of_isWide hrun hwide
          have hbyte := hholds.getElem?_eq hbegins
          rw [← hslots] at hlt hcount
          refine ⟨hholds.start_le, hholds.le_stop, hlt, hcount, rfl, ?_⟩
          rcases htag with rfl | rfl
          · exact .inl hbyte
          · exact .inr hbyte
        | succ left => exact ih left (by omega) _ (by simp; omega) after hafter
      · exact ih left (by omega) _ (by simp; omega) after hafter

namespace ClassFile

open Decoder

/-- The constant pool of the bytes, which begins behind the magic number and the version. -/
def pool? (bytes : List UInt8) : Option ConstantPool :=
  match ConstantPool.decode (.start ((Cursor.ofBytes bytes).advance 8)) with
  | .ok pool _ => some pool
  | .error _ _ => none

/-- The whole of some bytes, with their pool. -/
def whole (bytes : List UInt8) : Stretch where
  input := bytes
  pool := pool? bytes
  start := 0
  stop := bytes.length
  depth := 0
  stop_le := Nat.le_refl _

theorem whole_holds (bytes : List UInt8) : (whole bytes).Holds (.ofBytes bytes) where
  clean := rfl
  start_le := Nat.zero_le _
  stop_eq := by simp [Cursor.stop, Cursor.ofBytes, Cursor.absolute, whole]
  depth_eq := rfl
  rest_begins := List.prefix_refl _

/-- A wrong magic number stands at the very beginning. -/
theorem decodeMagic_results (bytes : List UInt8) :
    (whole bytes).Results (decodeMagic (.start (.ofBytes bytes))) := by
  have hholds := whole_holds bytes
  show (whole bytes).Results ((u4 >>= _) (.start (.ofBytes bytes)))
  refine (Accounts.u4 _ hholds).bind fun found after hfound hafter ↦ ?_
  obtain ⟨hbegins, rfl⟩ := u4_eq_ok_iff.mp hfound
  split
  · exact hafter
  · exact ⟨hholds.start_le, hholds.le_stop, rfl, hbegins⟩

theorem cursor_of_decodeMagic {state after : State} {value : Unit}
    (hrun : decodeMagic state = .ok value after) : after.cursor = state.cursor.advance 4 := by
  simp only [decodeMagic, bind_eq_ok_iff] at hrun
  obtain ⟨_, _, hplace, found, _, hfound, hmagic⟩ := hrun
  cases hplace
  obtain ⟨-, rfl⟩ := u4_eq_ok_iff.mp hfound
  split at hmagic <;> cases hmagic
  rfl

theorem pool_results {bytes : List UInt8} {state : State}
    (hcursor : state.cursor = (Cursor.ofBytes bytes).advance 8)
    (hholds : (whole bytes).Holds state.cursor) :
    (whole bytes).Results (ConstantPool.decode state) := by
  refine (Accounts.u2 state hholds).bind fun count after hread hafter ↦ ?_
  obtain ⟨hbegins, rfl⟩ := u2_eq_ok_iff.mp hread
  rw [hcursor] at hbegins
  have hcount : BigEndian.ofNat 2 count.toNat <+: (whole bytes).input.drop 8 := hbegins
  refine (?_ : (whole bytes).Accounts _) _ hafter
  refine .bind ?_ fun slots ↦ .bind (.record _) fun _ ↦ .pure _
  cases hzero : count.toNat with
  | zero => exact .pure _
  | succ left =>
    exact ConstantPool.decodeOnto_accounts count.toNat_lt hcount _ _ (by simp; omega)

/-- The pool of the bytes is the one that is read with them. -/
theorem pool?_of_decode {bytes : List UInt8} {state after : State} {pool : ConstantPool}
    (hcursor : state.cursor = (Cursor.ofBytes bytes).advance 8)
    (hrun : ConstantPool.decode state = .ok pool after) : pool? bytes = some pool := by
  obtain ⟨log, hother⟩ := run_of_log ConstantPool.decode_relates (by rw [hcursor]; rfl) hrun #[]
  rw [pool?, State.start, ← hcursor, hother]

theorem decode_results (bytes : List UInt8) :
    (whole bytes).Results (ClassFile.decode (.start (.ofBytes bytes))) := by
  refine (decodeMagic_results bytes).bind fun _ afterMagic hmagic hafter ↦ ?_
  have hcursor := cursor_of_decodeMagic hmagic
  refine (Accounts.u2 _ hafter).bind fun minor _ hminor hafter ↦ ?_
  obtain ⟨-, rfl⟩ := u2_eq_ok_iff.mp hminor
  refine (Accounts.u2 _ hafter).bind fun major _ hmajor hafter ↦ ?_
  obtain ⟨-, rfl⟩ := u2_eq_ok_iff.mp hmajor
  refine (Accounts.record _ _ hafter).bind fun _ _ hrecord hafter ↦ ?_
  cases hrecord
  have hplace : ((afterMagic.cursor.advance 2).advance 2) = (Cursor.ofBytes bytes).advance 8 := by
    simp [hcursor, State.start]
  refine (pool_results hplace hafter).bind fun pool afterPool hpool hafter ↦ ?_
  have hnames : (whole bytes).pool = some pool := pool?_of_decode hplace hpool
  refine (?_ : (whole bytes).Accounts _) _ hafter
  have hmember {declared : Declared} :
      (whole bytes).Accounts (Member.decode (some pool) : Decoder (Member declared)) :=
    Member.decode_accounts hnames
  exact .bind .u2 fun _ ↦ .bind .u2 fun _ ↦ .bind .u2 fun _ ↦
    .bind .u2 fun interfaces ↦ .bind (.times .u2 _) fun _ ↦
      .bind .u2 fun fields ↦ .bind (.times hmember _) fun _ ↦
        .bind .u2 fun methods ↦ .bind (.times hmember _) fun _ ↦
          .bind (.record _) fun _ ↦ .bind (Attributes.decode_accounts hnames) fun _ ↦ .pure _

/-- What an error says is true of the bytes. It concerns a place of theirs, and the bytes are there
as its cause says. A source that fails and a missing pool are no causes. -/
theorem borneOut_of_error {bytes : List UInt8} {error : DecodeError}
    (hfailed : (ofBytes bytes).1 = .error error) :
    error.offset ≤ bytes.length ∧ error.BorneOut bytes (pool? bytes) bytes.length := by
  have hresults := decode_results bytes
  rw [ofBytes_fst] at hfailed
  unfold answer EStateM.run at hfailed
  cases hrun : ClassFile.decode (.start (.ofBytes bytes)) with
  | error error' after =>
    rw [hrun] at hresults hfailed
    cases hfailed
    exact ⟨hresults.le_stop, hresults.borneOut⟩
  | ok file after =>
    obtain ⟨count, hcount, hcursor⟩ := cursor_eq_advance ClassFile.decode_relates rfl hrun
    rw [hrun] at hfailed
    dsimp only at hfailed
    split_ifs at hfailed
    cases hfailed
    have hposition : after.cursor.position = count := by simp [hcursor, State.start, Cursor.ofBytes]
    have hcount' : count ≤ bytes.length := hcount
    refine ⟨?_, ?_⟩
    · show after.cursor.position ≤ bytes.length
      omega
    · show after.cursor.position + (bytes.length - after.cursor.position) = bytes.length
      omega

/-- With another name in its pool the class of one method has an unknown attribute. The index of the
name stands where the error says. -/
theorem oneMethod_borneOut :
    (ofBytes (oneMethod.set 13 88)).1 = .error ⟨.unknownAttribute "Xode", 37⟩ ∧
      37 ≤ (oneMethod.set 13 88).length ∧
      DecodeError.BorneOut (oneMethod.set 13 88) (pool? (oneMethod.set 13 88))
        (oneMethod.set 13 88).length ⟨.unknownAttribute "Xode", 37⟩ := by
  have hcause : (match (ofBytes (oneMethod.set 13 88)).1 with
      | .error error => some error
      | .ok _ => none) = some ⟨.unknownAttribute "Xode", 37⟩ := by decide +kernel
  generalize oneMethod.set 13 88 = bytes at hcause ⊢
  have hfailed : (ofBytes bytes).1 = .error ⟨.unknownAttribute "Xode", 37⟩ := by
    split at hcause <;> simp_all
  obtain ⟨hplace, hborneOut⟩ := borneOut_of_error hfailed
  exact ⟨hfailed, hplace, hborneOut⟩

end ClassFile

end ClassFormat
