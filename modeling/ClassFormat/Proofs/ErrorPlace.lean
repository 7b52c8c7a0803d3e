import ClassFormat.Proofs.ShortReads
import Mathlib.Data.List.Infix

/-!
# The places of errors

What an error says about the input. `DecodeError.BorneOut` reads an error as a statement about the
bytes at its place: an unknown tag stands there, the index of a name stands there and the pool
answers as the error tells, the read that failed crosses the end. What it says of the length of an
attribute is what reading the body from its own bytes comes to.

A `Stretch` is a part of the input that a cursor runs over. `Stretch.Accounts` says that a decoder
stays within the stretch and that its errors are borne out there. The combinators of decoders keep
this, each by the lemma of its name, so that plain decoders have it (`Decoder.Plain.accounts`). A
part of the input is a stretch of its own (`Stretch.part`), and outside of it only the cause of a
read that crosses its end is another (`Accounts.bounded`).
-/

set_option autoImplicit false
set_option relaxedAutoImplicit false

namespace ClassFormat

/-- Whether the input is as the error says, if the names of attributes are looked up in `pool` and
bytes up to `stop` can be had. -/
def DecodeError.BorneOut (input : List UInt8) (pool : Option ConstantPool) (stop : Nat)
    (error : DecodeError) : Prop :=
  match error.cause with
  | .badMagic found => error.offset = 0 ∧ BigEndian.ofNat 4 found.toNat <+: input
  | .truncated requested => stop < error.offset + requested
  | .unknownConstantTag byte | .unknownOpcode byte | .unknownElementTag byte
  | .unknownFrameType byte | .unknownVerificationType byte | .unknownArrayType byte =>
    input[error.offset]? = some byte
  | .unknownAttribute shown => ∃ (names : ConstantPool) (index : UInt16) (name : List UInt8),
    pool = some names ∧ BigEndian.ofNat 2 index.toNat <+: input.drop error.offset ∧
      names.utf8 index.toNat = .ok name ∧ Attribute.Kind.ofNameBytes? name = none ∧
      shown = Text.LossyUtf8.decode name
  | .lookup failure => ∃ (names : ConstantPool) (index : UInt16),
    pool = some names ∧ BigEndian.ofNat 2 index.toNat <+: input.drop error.offset ∧
      names.utf8 index.toNat = .error failure
  | .attributeLength shown declared consumed =>
    ∃ (names : ConstantPool) (index : UInt16) (kind : Attribute.Kind) (place : Nat),
      pool = some names ∧ Attribute.header index declared <+: input.drop place ∧
      names.utf8 index.toNat = .ok kind.nameBytes ∧ shown = kind.name ∧
      (Leaving input (Attribute.decodeBody (Attribute.decode names) kind) (place + 6)
          declared.toNat error.offset consumed ∨
        Crossing input (Attribute.decodeBody (Attribute.decode names) kind) (place + 6)
          declared.toNat error.offset consumed)
  | .codeLength declared decoded => declared.toNat < decoded
  | .poolOverflow index count =>
    count < 65536 ∧ BigEndian.ofNat 2 count <+: input.drop 8 ∧ index + 1 = count ∧
      (input[error.offset]? = some 5 ∨ input[error.offset]? = some 6)
  | .nesting _ => True
  | .trailing count => error.offset + count = input.length
  | .missingPool | .sourceFault => False

/-- Where the bytes end matters only to the reads that cross the end. -/
theorem DecodeError.BorneOut.of_other {input : List UInt8} {pool : Option ConstantPool}
    {stop stop' : Nat} {error : DecodeError} (hother : error.cause.requested? = none)
    (hborneOut : error.BorneOut input pool stop) : error.BorneOut input pool stop' := by
  obtain ⟨cause, offset⟩ := error
  cases cause with
  | truncated requested => cases hother
  | _ => exact hborneOut

/-- A part of an input. -/
structure Stretch where
  /-- The whole input. -/
  input : List UInt8
  /-- The pool in which the names of attributes are looked up. -/
  pool : Option ConstantPool
  /-- Where the part begins. -/
  start : Nat
  /-- Where the part ends. -/
  stop : Nat
  /-- How many cursors the one that runs over the part was taken inside of. -/
  depth : Nat
  stop_le : stop ≤ input.length

namespace Stretch

/-- A cursor stands within the stretch and has all bytes up to its end. -/
structure Holds (stretch : Stretch) (cursor : Cursor) : Prop where
  clean : cursor.ending = .clean
  start_le : stretch.start ≤ cursor.absolute
  stop_eq : cursor.stop = stretch.stop
  depth_eq : cursor.depth = stretch.depth
  rest_begins : cursor.rest <+: stretch.input.drop cursor.absolute

/-- An error concerns a place of the stretch and is borne out there. -/
structure Explains (stretch : Stretch) (error : DecodeError) : Prop where
  start_le : stretch.start ≤ error.offset
  le_stop : error.offset ≤ stretch.stop
  borneOut : error.BorneOut stretch.input stretch.pool stretch.stop

/-- What may come of a run within the stretch. -/
def Results (stretch : Stretch) {α : Type} : EStateM.Result DecodeError Decoder.State α → Prop
  | .ok _ after => stretch.Holds after.cursor
  | .error error _ => stretch.Explains error

/-- A decoder stays within the stretch, and its errors are borne out there. -/
def Accounts (stretch : Stretch) {α : Type} (item : Decoder α) : Prop :=
  ∀ state : Decoder.State, stretch.Holds state.cursor → stretch.Results (item state)

variable {stretch : Stretch} {α β : Type}

/-! ### Reads -/

theorem Holds.le_stop {cursor : Cursor} (hholds : stretch.Holds cursor) :
    cursor.absolute ≤ stretch.stop := by
  rw [← hholds.stop_eq]
  exact Nat.le_add_right _ _

/-- Bytes behind the cursor stand in the input at its place. -/
theorem Holds.prefix_drop {cursor : Cursor} (hholds : stretch.Holds cursor) {bytes : List UInt8}
    (hbegins : bytes <+: cursor.rest) : bytes <+: stretch.input.drop cursor.absolute :=
  hbegins.trans hholds.rest_begins

/-- The byte behind the cursor stands in the input at its place. -/
theorem Holds.getElem?_eq {cursor : Cursor} (hholds : stretch.Holds cursor) {byte : UInt8}
    (hbegins : [byte] <+: cursor.rest) : stretch.input[cursor.absolute]? = some byte := by
  obtain ⟨behind, hbehind⟩ := hholds.prefix_drop hbegins
  have hhead := congrArg (·[0]?) hbehind
  simpa using hhead.symm

theorem Holds.advance {cursor : Cursor} (hholds : stretch.Holds cursor) {count : Nat}
    (hcount : count ≤ cursor.rest.length) : stretch.Holds (cursor.advance count) where
  clean := hholds.clean
  start_le := by
    have hstart := hholds.start_le
    rw [Cursor.advance_absolute]
    omega
  stop_eq := by
    rw [← hholds.stop_eq]
    simp only [Cursor.stop, Cursor.advance_absolute, Cursor.advance_rest, List.length_drop]
    omega
  depth_eq := hholds.depth_eq
  rest_begins := by
    rw [Cursor.advance_rest, Cursor.advance_absolute, ← List.drop_drop]
    exact List.IsPrefix.drop hholds.rest_begins count

/-! ### Values, places and failures -/

theorem Accounts.pure (value : α) : stretch.Accounts (Pure.pure value) :=
  fun _ hholds ↦ hholds

theorem Results.bind {item : Decoder α} {next : α → Decoder β} {state : Decoder.State}
    (hitem : stretch.Results (item state))
    (hnext : ∀ value after, item state = .ok value after → stretch.Holds after.cursor →
      stretch.Results (next value after)) :
    stretch.Results ((item >>= next) state) := by
  cases hrun : item state with
  | ok value after =>
    rw [Decoder.bind_of_ok hrun]
    rw [hrun] at hitem
    exact hnext value after hrun hitem
  | error error after =>
    rw [Decoder.bind_of_error hrun]
    rwa [hrun] at hitem

theorem Accounts.bind {item : Decoder α} {next : α → Decoder β} (hitem : stretch.Accounts item)
    (hnext : ∀ value, stretch.Accounts (next value)) : stretch.Accounts (item >>= next) :=
  fun state hholds ↦ (hitem state hholds).bind fun value after _ hafter ↦ hnext value after hafter

theorem Accounts.record (event : Event) : stretch.Accounts (Decoder.record event) :=
  fun _ hholds ↦ hholds

theorem Accounts.depth_bind {next : Nat → Decoder α}
    (hnext : stretch.Accounts (next stretch.depth)) :
    stretch.Accounts (Decoder.depth >>= next) := by
  intro state hholds
  rw [Decoder.bind_of_ok (Decoder.depth_run state), hholds.depth_eq]
  exact hnext state hholds

/-- A place that is asked for lies in the stretch. -/
theorem Accounts.offset_bind {next : Nat → Decoder α}
    (hnext : ∀ place, stretch.start ≤ place → place ≤ stretch.stop →
      stretch.Accounts (next place)) : stretch.Accounts (Decoder.offset >>= next) :=
  fun state hholds ↦ hnext state.cursor.absolute hholds.start_le hholds.le_stop state hholds

theorem Accounts.failAt {place : Nat} {cause : DecodeError.Cause}
    (hexplained : stretch.Explains ⟨cause, place⟩) :
    stretch.Accounts (α := α) (Decoder.failAt place cause) :=
  fun _ _ ↦ hexplained

theorem Accounts.fail {cause : DecodeError.Cause}
    (hborneOut : ∀ place, stretch.start ≤ place → place ≤ stretch.stop →
      DecodeError.BorneOut stretch.input stretch.pool stretch.stop ⟨cause, place⟩) :
    stretch.Accounts (α := α) (Decoder.fail cause) :=
  .offset_bind fun place hstart hstop ↦ .failAt ⟨hstart, hstop, hborneOut place hstart hstop⟩

/-! ### Reading -/

/-- A read that fails crosses the end of the stretch. -/
theorem Holds.explains_of_take {cursor : Cursor} (hholds : stretch.Holds cursor) {count : Nat}
    {error : DecodeError} (hfailed : cursor.take count = .error error) :
    stretch.Explains error := by
  obtain ⟨hshort, rfl⟩ := (Cursor.take_eq_error_iff _ _ _).mp hfailed
  refine ⟨hholds.start_le, hholds.le_stop, ?_⟩
  have hstop := hholds.stop_eq
  simp only [Cursor.stop] at hstop
  simp only [Cursor.shortage, hholds.clean, DecodeError.BorneOut]
  omega

theorem Accounts.take (count : Nat) : stretch.Accounts (Decoder.take count) := by
  intro state hholds
  unfold Decoder.take
  cases htaken : state.cursor.take count with
  | ok taken =>
    obtain ⟨bytes, behind⟩ := taken
    obtain ⟨rfl, hbegins, rfl⟩ := (Cursor.take_eq_ok_iff _ _ _ _).mp htaken
    exact hholds.advance hbegins.length_le
  | error error => exact hholds.explains_of_take htaken

theorem Accounts.unsigned (width : Nat) : stretch.Accounts (Decoder.unsigned width) :=
  .bind (.take width) fun _ ↦ .pure _

theorem Accounts.u1 : stretch.Accounts Decoder.u1 :=
  .bind (.unsigned 1) fun _ ↦ .pure _

theorem Accounts.u2 : stretch.Accounts Decoder.u2 :=
  .bind (.unsigned 2) fun _ ↦ .pure _

theorem Accounts.u4 : stretch.Accounts Decoder.u4 :=
  .bind (.unsigned 4) fun _ ↦ .pure _

/-- A byte that selects how to go on stands at the place that was asked for before. An error about
that byte may name this place. -/
theorem Accounts.tagged {next : Nat → UInt8 → Decoder α}
    (hnext : ∀ place tag, stretch.start ≤ place → place ≤ stretch.stop →
      stretch.input[place]? = some tag → stretch.Accounts (next place tag)) :
    stretch.Accounts (Decoder.offset >>= fun place ↦ Decoder.u1 >>= next place) := by
  intro state hholds
  refine (Accounts.u1 state hholds).bind fun tag after hrun hafter ↦ ?_
  obtain ⟨hbegins, rfl⟩ := Decoder.u1_eq_ok_iff.mp hrun
  exact hnext _ tag hholds.start_le hholds.le_stop (hholds.getElem?_eq hbegins) _ hafter

/-! ### Repetition -/

theorem Accounts.times {item : Decoder α} (hitem : stretch.Accounts item) (count : Nat) :
    stretch.Accounts (Decoder.times count item) := by
  induction count with
  | zero => exact .pure []
  | succ count ih =>
    rw [Decoder.times_succ]
    exact .bind hitem fun _ ↦ .bind ih fun _ ↦ .pure _

theorem Accounts.counted {item : Decoder α} (hitem : stretch.Accounts item) :
    stretch.Accounts (Decoder.counted item) :=
  .bind .u2 fun count ↦ .times hitem count.toNat

/-! ### Plain decoders -/

/-- A refused byte that stands at its place bears out the error about it. -/
theorem Explains.of_byte? {place : Nat} {byte : UInt8} {cause : DecodeError.Cause}
    (hcause : cause.byte? = some byte) (hstart : stretch.start ≤ place)
    (hstop : place ≤ stretch.stop) (hbyte : stretch.input[place]? = some byte) :
    stretch.Explains ⟨cause, place⟩ := by
  refine ⟨hstart, hstop, ?_⟩
  cases cause <;> cases hcause <;> exact hbyte

/-- To account for its errors is a property that plain decoders have. -/
theorem closed_accounts (stretch : Stretch) :
    Decoder.Closed fun _ item ↦ stretch.Accounts item where
  pure := .pure
  bind := .bind
  take := .take
  nesting _ := .fail fun _ _ _ ↦ trivial
  tagged hnext := .tagged fun place byte hstart hstop hbyte ↦ (hnext place place byte).holds
    fun hcause ↦ .failAt (.of_byte? hcause hstart hstop hbyte)

/-! ### Parts of the input -/

theorem Accounts.measured {item : Decoder α} (hitem : stretch.Accounts item) :
    stretch.Accounts (Decoder.measured item) :=
  .bind (fun _ hholds ↦ hholds) fun _ ↦ .bind hitem fun _ ↦ .bind (fun _ hholds ↦ hholds) fun _ ↦
    .pure _

/-- The part of the stretch from one place to another. -/
def part (stretch : Stretch) (first last : Nat) (hlast : last ≤ stretch.stop) : Stretch where
  input := stretch.input
  pool := stretch.pool
  start := first
  stop := last
  depth := stretch.depth + 1
  stop_le := hlast.trans stretch.stop_le

/-- An error that is explained in a part is explained outside, unless it is that the part ended. -/
theorem Explains.of_part {first last : Nat} {hlast : last ≤ stretch.stop} {error : DecodeError}
    (hfirst : stretch.start ≤ first) (hexplained : (stretch.part first last hlast).Explains error)
    (hother : error.cause.requested? = none) : stretch.Explains error where
  start_le := hfirst.trans hexplained.start_le
  le_stop := hexplained.le_stop.trans hlast
  borneOut := hexplained.borneOut.of_other hother

/-- A cursor over the next bytes stands within their part of the stretch. -/
theorem Holds.window {cursor : Cursor} (hholds : stretch.Holds cursor) {bytes : List UInt8}
    (hbegins : bytes <+: cursor.rest) (hlast : cursor.absolute + bytes.length ≤ stretch.stop) :
    (stretch.part cursor.absolute _ hlast).Holds (cursor.window bytes) where
  clean := rfl
  start_le := Nat.le_refl _
  stop_eq := rfl
  depth_eq := congrArg (· + 1) hholds.depth_eq
  rest_begins := hholds.prefix_drop hbegins

/-- A read of the next bytes that crosses their end, in a run over them alone. -/
theorem Explains.crossing {cursor : Cursor} {bytes : List UInt8}
    {hlast : cursor.absolute + bytes.length ≤ stretch.stop} {requested offset : Nat}
    (hexplained : (stretch.part cursor.absolute _ hlast).Explains ⟨.truncated requested, offset⟩)
    (hbegins : bytes <+: stretch.input.drop cursor.absolute) {body : Decoder α}
    (hstops : Decoder.StopsShort body) {log : Array Event} {inner : Decoder.State}
    (hrun : body ⟨cursor.window bytes, log⟩ = .error ⟨.truncated requested, offset⟩ inner) :
    Crossing stretch.input body cursor.absolute bytes.length offset
      (offset - cursor.absolute + requested) where
  stop_le := hlast.trans stretch.stop_le
  start_le := hexplained.start_le
  le_stop := hexplained.le_stop
  read := by
    rw [Cursor.window_eq_part hbegins] at hrun
    exact ⟨_, log, requested, hstops.runsShort hrun, hexplained.borneOut, rfl⟩

/-- An error from within a part of the stretch is explained outside of it, if the cause that stands
for a read across the end of the part is borne out. -/
theorem Explains.overrunAs {first last : Nat} {hlast : last ≤ stretch.stop} {error : DecodeError}
    {overrun : Nat → DecodeError.Cause} (hfirst : stretch.start ≤ first)
    (hexplained : (stretch.part first last hlast).Explains error)
    (hoverrun : ∀ offset requested, error = ⟨.truncated requested, offset⟩ →
      DecodeError.BorneOut stretch.input stretch.pool stretch.stop
        ⟨overrun (offset - first + requested), offset⟩) :
    stretch.Explains (Decoder.overrunAs overrun first error) := by
  obtain ⟨cause, offset⟩ := error
  cases cause with
  | truncated requested =>
    exact ⟨hfirst.trans hexplained.start_le, hexplained.le_stop.trans hlast,
      hoverrun offset requested rfl⟩
  | _ => exact hexplained.of_part hfirst rfl

/-- A part of the input is read as a stretch of its own. -/
theorem Accounts.bounded {length : Nat} {overrun : Nat → DecodeError.Cause} {body : Decoder α}
    (hbody : ∀ first last (hlast : last ≤ stretch.stop),
      (stretch.part first last hlast).Accounts body)
    (hstops : Decoder.StopsShort body)
    (hoverrun : ∀ first offset needed, Crossing stretch.input body first length offset needed →
      DecodeError.BorneOut stretch.input stretch.pool stretch.stop ⟨overrun needed, offset⟩) :
    stretch.Accounts (Decoder.bounded length overrun body) := by
  intro state hholds
  cases htaken : state.cursor.take length with
  | error error =>
    rw [Decoder.bounded_of_take_error htaken]
    exact hholds.explains_of_take htaken
  | ok taken =>
    obtain ⟨bytes, behind⟩ := taken
    obtain ⟨rfl, hbegins, rfl⟩ := (Cursor.take_eq_ok_iff _ _ _ _).mp htaken
    have hbehind := hholds.advance hbegins.length_le
    have hlast : state.cursor.absolute + bytes.length ≤ stretch.stop := by
      simpa using hbehind.le_stop
    have hresults := hbody _ _ hlast ⟨state.cursor.window bytes, state.log⟩
      (hholds.window hbegins hlast)
    rw [Decoder.bounded_of_take_ok htaken]
    cases hrun : body ⟨state.cursor.window bytes, state.log⟩ with
    | ok value inner => exact hbehind
    | error error inner =>
      rw [hrun] at hresults
      refine Explains.overrunAs hholds.start_le hresults fun offset requested herror ↦ ?_
      subst herror
      exact hoverrun _ _ _ (hresults.crossing (hholds.prefix_drop hbegins) hstops hrun)

end Stretch

/-- A plain decoder accounts for its errors on every stretch. -/
theorem Decoder.Plain.accounts {α : Type} {item : Decoder α} (hitem : Decoder.Plain item)
    {stretch : Stretch} : stretch.Accounts item :=
  hitem _ stretch.closed_accounts

end ClassFormat
