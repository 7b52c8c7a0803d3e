import ClassFormat.Proofs.Assembly
import ClassFormat.Proofs.ErrorPlace.Decoders
import ClassFormat.Proofs.Failure
import ClassFormat.Proofs.Truncation

/-!
# Lengths that do not fit

An error about the length of a body, or of the code in one, names numbers, and these are true of the
input: an attribute whose header stands there has them, and its body or its code, read from its own
bytes alone, comes to a read that crosses their end (`Crossing`). For bodies this is part of what
`DecodeError.BorneOut` says. For code it needs that instructions within their own bytes never come
to stand behind these (`InstructionList.crossing_of_bounded`), and then that the length of the code
stands behind a header (`Stretch.FindsCode`), at any depth of nesting.

The main statement, `Attribute.decode_truncated_and_mismatch`, says when an attribute is truncated,
and what is true where it is said to have a wrong length.
-/

set_option autoImplicit false
set_option relaxedAutoImplicit false

namespace ClassFormat

open Decoder

/-- At a place of the input begins an attribute with a method body, whose code is declared to have a
length. -/
def CodeDeclared (input : List UInt8) (pool : ConstantPool) (start : Nat) (declared : UInt32) :
    Prop :=
  ∃ (nameIndex : UInt16) (length : UInt32) (maxStack maxLocals : UInt16),
    pool.utf8 nameIndex.toNat = .ok Attribute.Kind.code.nameBytes ∧
      Attribute.header nameIndex length ++ (BigEndian.ofUInt16 maxStack ++
        (BigEndian.ofUInt16 maxLocals ++ BigEndian.ofUInt32 declared)) <+: input.drop start

/-- What an error about the length of code says is true of code in the input. -/
def DecodeError.FoundCode (input : List UInt8) (pool : ConstantPool) (error : DecodeError) : Prop :=
  ∀ declared decoded, error.cause = .codeLength declared decoded →
    ∃ start, CodeDeclared input pool start declared ∧
      Crossing input (InstructionList.decode declared) (start + 14) declared.toNat error.offset
        decoded

theorem DecodeError.foundCode_of_not_isMismatch {input : List UInt8} {pool : ConstantPool}
    {error : DecodeError} (hother : ¬error.cause.IsMismatch) : error.FoundCode input pool := by
  intro declared decoded hcause
  rw [hcause] at hother
  exact absurd trivial hother

/-! ### Instructions within their bytes -/

/-- Within exactly its bytes code has a wrong length only where a read crosses their end. -/
theorem InstructionList.crossing_of_bounded {stretch : Stretch} {length declared : UInt32}
    {decoded offset : Nat} {state after : State} (hholds : stretch.Holds state.cursor)
    (hrun : bounded length.toNat (.codeLength length) (InstructionList.decode length) state =
      .error ⟨.codeLength declared decoded, offset⟩ after) :
    declared = length ∧ Crossing stretch.input (InstructionList.decode length)
      state.cursor.absolute length.toNat offset decoded := by
  cases htaken : state.cursor.take length.toNat with
  | error error =>
    obtain ⟨-, rfl⟩ := (Cursor.take_eq_error_iff _ _ _).mp htaken
    rw [bounded_of_take_error htaken, Cursor.shortage, hholds.clean] at hrun
    cases hrun
  | ok taken =>
    obtain ⟨bytes, behind⟩ := taken
    obtain ⟨hlength, hbegins, rfl⟩ := (Cursor.take_eq_ok_iff _ _ _ _).mp htaken
    have hbehind := hholds.advance (hlength ▸ hbegins.length_le)
    have hlast : state.cursor.absolute + bytes.length ≤ stretch.stop := by
      simpa [hlength] using hbehind.le_stop
    have hresults := InstructionList.decode_accounts length
      ⟨state.cursor.window bytes, state.log⟩ (hholds.window hbegins hlast)
    have hwalked := InstructionList.decodeOnto_walked length 0 []
      ⟨state.cursor.window bytes, state.log⟩
    rw [bounded_of_take_ok htaken] at hrun
    cases hinner : InstructionList.decode length ⟨state.cursor.window bytes, state.log⟩ with
    | ok list inner =>
      rw [hinner] at hrun
      cases hrun
    | error error inner =>
      rw [hinner] at hrun hresults
      rw [← InstructionList.decode, hinner] at hwalked
      obtain ⟨cause, place⟩ := error
      cases cause with
      | truncated requested =>
        have hcrossing := hresults.crossing (hholds.prefix_drop hbegins)
          (InstructionList.decode_stopsShort length) hinner
        rw [hlength] at hcrossing
        cases hrun
        exact ⟨rfl, hcrossing⟩
      | codeLength _ _ =>
        -- The instructions would stand behind the end of the bytes that they are read from.
        cases hwalked with
        | stopped hcause => exact absurd trivial hcause
        | past hcount hpast =>
          rw [Cursor.window_rest] at hcount
          omega
      | _ => cases hrun

/-! ### Code in the input -/

namespace Stretch

variable {stretch : Stretch} {pool : ConstantPool} {α β : Type}

/-- What may come of a run, as far as code is concerned. -/
def CodeFound (stretch : Stretch) (pool : ConstantPool) :
    EStateM.Result DecodeError State α → Prop
  | .ok _ _ => True
  | .error error _ => error.FoundCode stretch.input pool

/-- What a decoder says about the length of code is true of code in the input. -/
def FindsCode (stretch : Stretch) (pool : ConstantPool) (item : Decoder α) : Prop :=
  ∀ state : State, stretch.Holds state.cursor → stretch.CodeFound pool (item state)

theorem CodeFound.bind {item : Decoder α} {next : α → Decoder β} {state : State}
    (hitem : stretch.CodeFound pool (item state)) (hresults : stretch.Results (item state))
    (hnext : ∀ value after, item state = .ok value after → stretch.Holds after.cursor →
      stretch.CodeFound pool (next value after)) :
    stretch.CodeFound pool ((item >>= next) state) := by
  cases hrun : item state with
  | ok value after =>
    rw [bind_of_ok hrun]
    rw [hrun] at hresults
    exact hnext value after hrun hresults
  | error error after =>
    rw [bind_of_error hrun]
    rwa [hrun] at hitem

theorem FindsCode.pure (value : α) : stretch.FindsCode pool (Pure.pure value) :=
  fun _ _ ↦ trivial

theorem FindsCode.bind {item : Decoder α} {next : α → Decoder β}
    (hitem : stretch.FindsCode pool item) (haccounts : stretch.Accounts item)
    (hnext : ∀ value, stretch.FindsCode pool (next value)) :
    stretch.FindsCode pool (item >>= next) :=
  fun state hholds ↦ (hitem state hholds).bind (haccounts state hholds)
    fun value after _ hafter ↦ hnext value after hafter

/-- A plain decoder says nothing about lengths. -/
theorem FindsCode.of_plain {item : Decoder α} (hitem : Plain item) :
    stretch.FindsCode pool item := by
  intro state _
  have hadvanced := hitem.forward state
  cases hrun : item state with
  | ok value after => trivial
  | error error after =>
    rw [hrun] at hadvanced
    cases hadvanced with
    | error hcause => exact DecodeError.foundCode_of_not_isMismatch hcause

/-- Behind a plain decoder only the next one may say something about lengths. -/
theorem CodeFound.plain_bind {item : Decoder α} {next : α → Decoder β} {state : State}
    (hitem : Plain item) (hholds : stretch.Holds state.cursor)
    (hnext : ∀ value after, item state = .ok value after → stretch.Holds after.cursor →
      stretch.CodeFound pool (next value after)) :
    stretch.CodeFound pool ((item >>= next) state) :=
  (FindsCode.of_plain hitem state hholds).bind (hitem.accounts state hholds) hnext

theorem FindsCode.counted {item : Decoder α} (hitem : stretch.FindsCode pool item)
    (haccounts : stretch.Accounts item) : stretch.FindsCode pool (Decoder.counted item) := by
  refine .bind (.of_plain .u2) .u2 fun count ↦ ?_
  induction count.toNat with
  | zero => exact .pure []
  | succ count ih =>
    rw [Decoder.times_succ]
    exact .bind hitem haccounts fun _ ↦ .bind ih (.times haccounts count) fun _ ↦ .pure _

/-- Code is found to have a wrong length where its length is declared. -/
theorem codeFound_of_bounded {start : Nat} {declared : UInt32} {state : State}
    (hholds : stretch.Holds state.cursor) (hplace : state.cursor.absolute = start + 14)
    (hdeclared : CodeDeclared stretch.input pool start declared) :
    stretch.CodeFound pool (bounded declared.toNat (.codeLength declared)
      (InstructionList.decode declared) state) := by
  cases hrun : bounded declared.toNat (.codeLength declared) (InstructionList.decode declared)
      state with
  | ok instructions after => trivial
  | error error after =>
    intro declared' decoded hcause
    obtain ⟨cause, offset⟩ := error
    obtain rfl : cause = .codeLength declared' decoded := hcause
    obtain ⟨rfl, hcrossing⟩ := InstructionList.crossing_of_bounded hholds hrun
    rw [hplace] at hcrossing
    exact ⟨start, hdeclared, hcrossing⟩

end Stretch

namespace Attribute

open Stretch

variable {stretch : Stretch} {pool : ConstantPool} {nested : Decoder Attribute} {start : Nat}
  {nameIndex : UInt16} {length : UInt32} {state : State}

/-- The length of the code of a method body stands in the input behind the header of the body. -/
theorem decodeCode_codeFound (hnested : stretch.FindsCode pool nested)
    (haccounts : stretch.Accounts nested) (hholds : stretch.Holds state.cursor)
    (hplace : state.cursor.absolute = start + 6)
    (hheader : header nameIndex length <+: stretch.input.drop start)
    (hname : pool.utf8 nameIndex.toNat = .ok Kind.code.nameBytes) :
    stretch.CodeFound pool (decodeCode nested state) := by
  refine .plain_bind .u2 hholds fun maxStack _ hstack hbehindStack ↦ ?_
  obtain ⟨hstack', rfl⟩ := u2_eq_ok_iff.mp hstack
  refine .plain_bind .u2 hbehindStack fun maxLocals _ hlocals hbehindLocals ↦ ?_
  obtain ⟨hlocals', rfl⟩ := u2_eq_ok_iff.mp hlocals
  refine .plain_bind .u4 hbehindLocals fun declared _ hlength hbehindLength ↦ ?_
  obtain ⟨hlength', rfl⟩ := u4_eq_ok_iff.mp hlength
  have hdeclared : CodeDeclared stretch.input pool start declared := by
    refine ⟨nameIndex, length, maxStack, maxLocals, hname, ?_⟩
    have hstack'' := hholds.prefix_drop hstack'
    have hlocals'' := hbehindStack.prefix_drop hlocals'
    have hlength'' := hbehindLocals.prefix_drop hlength'
    simp only [Cursor.advance_absolute, hplace] at hstack'' hlocals'' hlength''
    simp only [append_prefix_iff, List.drop_drop, length_header, BigEndian.length_ofUInt16]
    exact ⟨hheader, hstack'', hlocals'', hlength''⟩
  have hcode : (((state.cursor.advance 2).advance 2).advance 4).absolute = start + 14 := by
    simp only [Cursor.advance_absolute, hplace]
  refine (codeFound_of_bounded hbehindLength hcode hdeclared).bind
    (InstructionList.bounded_accounts declared _ hbehindLength) fun instructions _ _ hafter ↦ ?_
  refine .plain_bind (.counted ExceptionHandler.decode_plain) hafter fun handlers _ _ hbehind ↦ ?_
  exact (FindsCode.counted hnested haccounts _ hbehind).bind (Accounts.counted haccounts _ hbehind)
    fun _ _ _ _ ↦ trivial

theorem decodeBody_codeFound (state : State) (hnested : stretch.FindsCode pool nested)
    (haccounts : stretch.Accounts nested) (hholds : stretch.Holds state.cursor)
    (hplace : state.cursor.absolute = start + 6)
    (hheader : header nameIndex length <+: stretch.input.drop start) {kind : Kind}
    (hname : pool.utf8 nameIndex.toNat = .ok kind.nameBytes) :
    stretch.CodeFound pool (decodeBody nested kind state) := by
  by_cases hkind : kind = .code
  · subst hkind
    exact (decodeCode_codeFound hnested haccounts hholds hplace hheader hname).bind
      (decodeCode_accounts haccounts state hholds) fun _ _ _ _ ↦ trivial
  · exact FindsCode.of_plain (decodeBody_plain nested hkind) state hholds

/-- A frame passes on what its body says about code. -/
theorem decodeFramed_codeFound
    (hnested : ∀ first last (hlast : last ≤ stretch.stop),
      (stretch.part first last hlast).FindsCode pool nested)
    (haccounts : ∀ first last (hlast : last ≤ stretch.stop),
      (stretch.part first last hlast).Accounts nested)
    (hholds : stretch.Holds state.cursor) (hplace : state.cursor.absolute = start + 6)
    (hheader : header nameIndex length <+: stretch.input.drop start) {name : List UInt8}
    (hname : pool.utf8 nameIndex.toNat = .ok name) :
    stretch.CodeFound pool (decodeFramed nested start name length state) := by
  cases htaken : state.cursor.take length.toNat with
  | error error =>
    obtain ⟨-, rfl⟩ := (Cursor.take_eq_error_iff _ _ _).mp htaken
    rw [decodeFramed_of_take_error htaken]
    exact DecodeError.foundCode_of_not_isMismatch (state.cursor.not_isMismatch_shortage _)
  | ok taken =>
    obtain ⟨bytes, behind⟩ := taken
    cases hknown : Kind.ofNameBytes? name with
    | none =>
      rw [decodeFramed_unknown htaken hknown]
      exact DecodeError.foundCode_of_not_isMismatch fun hmismatch ↦ hmismatch
    | some kind =>
      obtain rfl := (Kind.ofNameBytes?_eq_some_iff name kind).mp hknown
      obtain ⟨hlength, hbegins, -⟩ := (Cursor.take_eq_ok_iff _ _ _ _).mp htaken
      have hbehind := hholds.advance (hlength ▸ hbegins.length_le)
      have hlast : state.cursor.absolute + bytes.length ≤ stretch.stop := by
        simpa [hlength] using hbehind.le_stop
      have hbody := decodeBody_codeFound
        ⟨state.cursor.window bytes, state.log.push (.attributeBody kind.name length start)⟩
        (hnested _ _ hlast) (haccounts _ _ hlast) (hholds.window hbegins hlast) hplace hheader hname
      rw [decodeFramed_nameBytes hlength hbegins]
      cases hrun : decodeBody nested kind ⟨state.cursor.window bytes,
          state.log.push (.attributeBody kind.name length start)⟩ with
      | ok item inner =>
        dsimp only
        split_ifs with hleft
        · trivial
        · intro declared decoded hcause
          cases hcause
      | error error inner =>
        rw [hrun] at hbody
        obtain ⟨cause, offset⟩ := error
        cases cause with
        | truncated requested =>
          -- This becomes an error about the length of the attribute.
          intro declared decoded hcause
          cases hcause
        | _ => exact hbody

/-- At any depth of nesting, what is said about the length of code is true of code in the input. -/
theorem decodeWithin_findsCode (hpool : stretch.pool = some pool) {levels : Nat}
    (hlevels : levels = maxNesting + 1 - stretch.depth) :
    stretch.FindsCode pool (decodeWithin pool levels) := by
  induction levels generalizing stretch with
  | zero => exact .of_plain (.nesting maxNesting)
  | succ levels ih =>
    intro state hholds
    by_cases hindex : state.cursor.rest.length < 2
    · rw [decodeWithin_of_lt_two hindex]
      exact DecodeError.foundCode_of_not_isMismatch (state.cursor.not_isMismatch_shortage _)
    by_cases hlength : state.cursor.rest.length < 6
    · rw [decodeWithin_of_lt_six (Nat.le_of_not_lt hindex) hlength]
      exact DecodeError.foundCode_of_not_isMismatch (state.cursor.not_isMismatch_shortage _)
    obtain ⟨nameIndex, length, body, hrest⟩ := exists_header (Nat.le_of_not_lt hlength)
    rw [decodeWithin_of_header hrest]
    cases hname : pool.utf8 nameIndex.toNat with
    | error failure =>
      exact DecodeError.foundCode_of_not_isMismatch fun hmismatch ↦ hmismatch
    | ok name =>
      have hinner : levels = maxNesting + 1 - (stretch.depth + 1) := by omega
      exact decodeFramed_codeFound (fun first last hlast ↦ ih hpool hinner)
        (fun first last hlast ↦
          @decodeWithin_accounts (stretch.part first last hlast) pool hpool levels hinner)
        (hholds.advance (Nat.le_of_not_lt hlength)) (Cursor.advance_absolute _ _)
        (hholds.prefix_drop ⟨body, hrest.symm⟩) hname

/-! ### Attributes of any source -/

/-- What a cursor that stands in an input runs over. -/
def stretchOf (pool : ConstantPool) (cursor : Cursor) {input : List UInt8}
    (hstop : cursor.stop ≤ input.length) : Stretch where
  input := input
  pool := some pool
  start := cursor.absolute
  stop := cursor.stop
  depth := cursor.depth
  stop_le := hstop

/-- An attribute is truncated only where bytes of its header are missing or its body as a whole is
not there. Where it, or an attribute within it, is said to have a wrong length, there is a header in
the input with the name and the length that are told. Its body, read from as many bytes as the
header declares, either ends before the last of them, where the error is, or comes there to a read
that crosses their end, and the number that is told counts the bytes up to the end of this read. The
same is true of the length of code. -/
theorem decode_truncated_and_mismatch {pool : ConstantPool} {state : State} {input : List UInt8}
    (hdepth : state.cursor.depth ≤ maxNesting) (hstop : state.cursor.stop ≤ input.length)
    (hinput : state.cursor.rest <+: input.drop state.cursor.absolute) :
    (∀ requested offset,
      (∃ after, decode pool state = .error ⟨.truncated requested, offset⟩ after) ↔
        state.cursor.ending = .clean ∧ CutOff pool state.cursor requested offset) ∧
    (∀ shown declared consumed offset after,
      decode pool state = .error ⟨.attributeLength shown declared consumed, offset⟩ after →
      ∃ start nameIndex kind, header nameIndex declared <+: input.drop start ∧
        pool.utf8 nameIndex.toNat = .ok kind.nameBytes ∧ shown = kind.name ∧
        (Leaving input (decodeBody (decode pool) kind) (start + 6) declared.toNat offset consumed ∨
          Crossing input (decodeBody (decode pool) kind) (start + 6) declared.toNat offset
            consumed)) ∧
    ∀ declared decoded offset after,
      decode pool state = .error ⟨.codeLength declared decoded, offset⟩ after →
      ∃ start, CodeDeclared input pool start declared ∧
        Crossing input (InstructionList.decode declared) (start + 14) declared.toNat offset
          decoded := by
  -- Where the source fails, a wrong length is what it is where the source ends.
  let stretch := stretchOf pool state.cursor hstop
  have hholds : stretch.Holds state.ending.cursor := ⟨rfl, Nat.le_refl _, rfl, rfl, hinput⟩
  refine ⟨fun requested offset ↦ decode_truncated_iff hdepth, ?_, ?_⟩
  · intro shown declared consumed offset after hrun
    obtain ⟨after', hended⟩ := run_ending (decode_relates · pool) hrun fun hcause ↦ by cases hcause
    have hresults : stretch.Results (decode pool state.ending) :=
      decode_accounts rfl state.ending hholds
    rw [hended] at hresults
    obtain ⟨names, nameIndex, kind, start, hpool, hheader, hname, hshown, hnumbers⟩ :=
      hresults.borneOut
    cases hpool
    exact ⟨start, nameIndex, kind, hheader, hname, hshown, hnumbers⟩
  · intro declared decoded offset after hrun
    obtain ⟨after', hended⟩ := run_ending (decode_relates · pool) hrun fun hcause ↦ by cases hcause
    have hfound : stretch.CodeFound pool (decode pool state.ending) :=
      decodeWithin_findsCode rfl rfl state.ending hholds
    rw [hended] at hfound
    exact hfound declared decoded rfl

/-- A method body of thirteen bytes, with one byte of code in which an instruction of three bytes
begins. -/
def sipushBody : List UInt8 :=
  [0, 1, 0, 1, 0, 0, 0, 1, 0x11, 0, 0, 0, 0]

/-- With its own length that body has a wrong length of code, with a shorter one it has a wrong
length itself, and with a longer one it is cut off. -/
theorem decode_sipushBody :
    let pool : ConstantPool := ⟨#[none, some (.utf8 Kind.code.nameBytes)]⟩
    let input (length : UInt32) := header 1 length ++ sipushBody
    (∃ after, decode pool (.start (.ofBytes (input 13))) =
      .error ⟨.codeLength 1 3, 15⟩ after) ∧
    (∃ start, CodeDeclared (input 13) pool start 1 ∧
      Crossing (input 13) (InstructionList.decode 1) (start + 14) 1 15 3) ∧
    (∃ after, decode pool (.start (.ofBytes (input 5))) =
      .error ⟨.attributeLength "Code" 5 8, 10⟩ after) ∧
    (∃ start nameIndex kind, header nameIndex 5 <+: (input 5).drop start ∧ "Code" = kind.name ∧
      Crossing (input 5) (decodeBody (decode pool) kind) (start + 6) 5 10 8) ∧
    ∃ after, decode pool (.start (.ofBytes (input 14))) = .error ⟨.truncated 14, 6⟩ after := by
  intro pool input
  have hlengths (length : UInt32) := @decode_truncated_and_mismatch pool
    (.start (.ofBytes (input length))) (input length) (Nat.zero_le _)
    (Nat.zero_add _).le List.prefix_rfl
  obtain ⟨after, hcode⟩ : ∃ after, decode pool (.start (.ofBytes (input 13))) =
      .error ⟨.codeLength 1 3, 15⟩ after := exists_error_of_answer (by decide +kernel)
  obtain ⟨after', hbody⟩ : ∃ after, decode pool (.start (.ofBytes (input 5))) =
      .error ⟨.attributeLength "Code" 5 8, 10⟩ after := exists_error_of_answer (by decide +kernel)
  obtain ⟨start, nameIndex, kind, hheader, -, hshown, hnumbers⟩ := (hlengths 5).2.1 _ _ _ _ _ hbody
  have hcrossing := hnumbers.resolve_left fun hshorter ↦ absurd hshorter.taken_lt (by decide)
  have hname : pool.utf8 (1 : UInt16).toNat = .ok Kind.code.nameBytes := rfl
  have hshort : (input 14).length < 6 + (14 : UInt32).toNat := by decide
  have hheader' : header 1 14 <+: (Cursor.ofBytes (input 14)).rest := List.prefix_append _ _
  have hcutOff : CutOff pool (.ofBytes (input 14)) 14 6 := .body hheader' hname hshort
  exact ⟨⟨after, hcode⟩, (hlengths 13).2.2 _ _ _ _ hcode, ⟨after', hbody⟩,
    ⟨start, nameIndex, kind, hheader, hshown, hcrossing⟩, ((hlengths 14).1 14 6).mpr ⟨rfl, hcutOff⟩⟩

end Attribute

end ClassFormat
