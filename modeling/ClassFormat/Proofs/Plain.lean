import ClassFormat.Proofs.Run

/-!
# Plain decoders

Most decoders are made of reads alone: they take no part of the input, report nothing, and ask where
they stand only to say so of a byte that they refuse. `Decoder.Closed` says of a property of
decoders that it holds of reads and is kept when decoders are put together in this way, and a
decoder is `Decoder.Plain` if it has every such property. So each decoder is followed once, and what
is proved to be closed then holds of all of them.

The first such property is that a plain decoder moves forward over some bytes and changes nothing
else (`Decoder.Plain.forward`).
-/

set_option autoImplicit false
set_option relaxedAutoImplicit false

namespace ClassFormat

namespace DecodeError.Cause

/-- The byte that the cause is about, if it is about one. -/
def byte? : DecodeError.Cause → Option UInt8
  | .unknownConstantTag byte | .unknownOpcode byte | .unknownElementTag byte
  | .unknownFrameType byte | .unknownVerificationType byte | .unknownArrayType byte => some byte
  | _ => none

/-- Whether the cause is that a length does not fit what it is declared for. -/
def IsMismatch : DecodeError.Cause → Prop
  | .attributeLength .. | .codeLength .. => True
  | _ => False

/-- A cause that is about a byte is not that bytes were missing. -/
theorem requested?_of_byte? {cause : DecodeError.Cause} {byte : UInt8}
    (hcause : cause.byte? = some byte) : cause.requested? = none := by
  cases cause with
  | truncated requested => cases hcause
  | _ => rfl

theorem not_isMismatch_of_byte? {cause : DecodeError.Cause} {byte : UInt8}
    (hcause : cause.byte? = some byte) : ¬cause.IsMismatch := by
  cases cause <;> simp_all [byte?, IsMismatch]

end DecodeError.Cause

theorem Cursor.not_isMismatch_shortage (cursor : Cursor) (count : Nat) :
    ¬(cursor.shortage count).IsMismatch := by
  cases hending : cursor.ending <;> simp [shortage, hending, DecodeError.Cause.IsMismatch]

namespace Decoder

variable {α β : Type}

/-! ### Properties that plain decoders have -/

/-- What a decoder does for a byte, read at one place or at another: it goes on in one way at both,
or it refuses the byte there. -/
inductive Branch (property : Decoder α → Prop) (byte : UInt8) (place place' : Nat) :
    Decoder α → Decoder α → Prop
  | known {item : Decoder α} (hitem : property item) : Branch property byte place place' item item
  | unknown {cause : DecodeError.Cause} (hcause : cause.byte? = some byte) :
    Branch property byte place place' (failAt place cause) (failAt place' cause)

theorem Branch.mono {property property' : Decoder α → Prop} {byte : UInt8} {place place' : Nat}
    {item item' : Decoder α} (hbranch : Branch property byte place place' item item')
    (himp : ∀ item, property item → property' item) :
    Branch property' byte place place' item item' := by
  cases hbranch with
  | known hitem => exact .known (himp _ hitem)
  | unknown hcause => exact .unknown hcause

/-- A property that refusing the byte has is one of what is done for the byte. -/
theorem Branch.holds {property : Decoder α → Prop} {byte : UInt8} {place place' : Nat}
    {item item' : Decoder α} (hbranch : Branch property byte place place' item item')
    (hrefused : ∀ {cause : DecodeError.Cause}, cause.byte? = some byte →
      property (failAt place cause)) : property item := by
  cases hbranch with
  | known hitem => exact hitem
  | unknown hcause => exact hrefused hcause

/-- A property holds of reads and is kept when decoders are put together. -/
structure Closed (property : (α : Type) → Decoder α → Prop) : Prop where
  pure {α : Type} (value : α) : property α (Pure.pure value)
  bind {α β : Type} {item : Decoder α} {next : α → Decoder β} (hitem : property α item)
    (hnext : ∀ value, property β (next value)) : property β (item >>= next)
  take (count : Nat) : property (List UInt8) (Decoder.take count)
  nesting {α : Type} (limit : Nat) : property α (fail (.nesting limit))
  /-- A byte selects how to go on. An error about this byte names the place before it. -/
  tagged {α : Type} {next : Nat → UInt8 → Decoder α}
    (hnext : ∀ place place' byte,
      Branch (property α) byte place place' (next place byte) (next place' byte)) :
    property α (Decoder.offset >>= fun place ↦ Decoder.u1 >>= next place)

/-- A decoder that is made of reads alone. -/
def Plain (item : Decoder α) : Prop :=
  ∀ property : (α : Type) → Decoder α → Prop, Closed property → property α item

namespace Plain

theorem pure (value : α) : Plain (Pure.pure value) :=
  fun _ hclosed ↦ hclosed.pure value

theorem bind {item : Decoder α} {next : α → Decoder β} (hitem : Plain item)
    (hnext : ∀ value, Plain (next value)) : Plain (item >>= next) :=
  fun property hclosed ↦
    hclosed.bind (hitem property hclosed) fun value ↦ hnext value property hclosed

theorem take (count : Nat) : Plain (Decoder.take count) :=
  fun _ hclosed ↦ hclosed.take count

theorem nesting (limit : Nat) : Plain (fail (.nesting limit) : Decoder α) :=
  fun _ hclosed ↦ hclosed.nesting limit

theorem tagged {next : Nat → UInt8 → Decoder α}
    (hnext : ∀ place place' byte,
      Branch Plain byte place place' (next place byte) (next place' byte)) :
    Plain (Decoder.offset >>= fun place ↦ Decoder.u1 >>= next place) := by
  intro property hclosed
  refine hclosed.tagged fun place place' byte ↦ ?_
  exact (hnext place place' byte).mono fun item hitem ↦ hitem property hclosed

end Plain

/-- A decoder that is made of reads alone and refuses nothing: it fails only where bytes are
missing. -/
inductive Straight : {α : Type} → Decoder α → Prop
  | pure {α : Type} (value : α) : Straight (Pure.pure value)
  | bind {α β : Type} {item : Decoder α} {next : α → Decoder β} (hitem : Straight item)
    (hnext : ∀ value, Straight (next value)) : Straight (item >>= next)
  | take (count : Nat) : Straight (Decoder.take count)

namespace Straight

theorem plain {item : Decoder α} (hitem : Straight item) : Plain item := by
  induction hitem with
  | pure value => exact .pure value
  | bind hitem hnext ihitem ihnext => exact .bind ihitem ihnext
  | take count => exact .take count

theorem skip (count : Nat) : Straight (Decoder.skip count) :=
  .bind (.take count) fun _ ↦ .pure _

theorem unsigned (width : Nat) : Straight (Decoder.unsigned width) :=
  .bind (.take width) fun _ ↦ .pure _

theorem u1 : Straight Decoder.u1 :=
  .bind (.unsigned 1) fun _ ↦ .pure _

theorem u2 : Straight Decoder.u2 :=
  .bind (.unsigned 2) fun _ ↦ .pure _

theorem u4 : Straight Decoder.u4 :=
  .bind (.unsigned 4) fun _ ↦ .pure _

theorem s1 : Straight Decoder.s1 :=
  .bind .u1 fun _ ↦ .pure _

theorem s2 : Straight Decoder.s2 :=
  .bind .u2 fun _ ↦ .pure _

theorem s4 : Straight Decoder.s4 :=
  .bind .u4 fun _ ↦ .pure _

theorem times {item : Decoder α} (hitem : Straight item) (count : Nat) :
    Straight (Decoder.times count item) := by
  induction count with
  | zero => exact .pure []
  | succ count ih =>
    rw [times_succ]
    exact .bind hitem fun _ ↦ .bind ih fun _ ↦ .pure _

end Straight

namespace Plain

theorem u1 : Plain Decoder.u1 :=
  Straight.u1.plain

theorem u2 : Plain Decoder.u2 :=
  Straight.u2.plain

theorem u4 : Plain Decoder.u4 :=
  Straight.u4.plain

theorem times {item : Decoder α} (hitem : Plain item) (count : Nat) :
    Plain (Decoder.times count item) := by
  induction count with
  | zero => exact .pure []
  | succ count ih =>
    rw [times_succ]
    exact .bind hitem fun _ ↦ .bind ih fun _ ↦ .pure _

theorem counted {item : Decoder α} (hitem : Plain item) : Plain (Decoder.counted item) :=
  .bind .u2 fun count ↦ .times hitem count.toNat

theorem shortCounted {item : Decoder α} (hitem : Plain item) :
    Plain (Decoder.shortCounted item) :=
  .bind .u1 fun count ↦ .times hitem count.toNat

end Plain

/-! ### Moving forward -/

/-- What may come of a decoder that moves forward: it has read some bytes and reported nothing, or
there was an error, and it is not that a length does not fit. -/
inductive Advanced (state : State) : EStateM.Result DecodeError State α → Prop
  | ok {value : α} {count : Nat} (hcount : count ≤ state.cursor.rest.length) :
    Advanced state (.ok value ⟨state.cursor.advance count, state.log⟩)
  | error {error : DecodeError} {after : State} (hcause : ¬error.cause.IsMismatch) :
    Advanced state (.error error after)

/-- A decoder moves forward from wherever it is run. -/
def Forward (item : Decoder α) : Prop :=
  ∀ state, Advanced state (item state)

theorem Forward.pure (value : α) : Forward (Pure.pure value) := by
  intro state
  have hresult : Advanced state (.ok value ⟨state.cursor.advance 0, state.log⟩) :=
    .ok (Nat.zero_le _)
  rwa [Cursor.advance_zero] at hresult

/-- Moving forward twice is moving forward. -/
theorem Forward.bind {item : Decoder α} {next : α → Decoder β} (hitem : Forward item)
    (hnext : ∀ value, Forward (next value)) : Forward (item >>= next) := by
  intro state
  have hfirst := hitem state
  cases hrun : item state with
  | error error after =>
    rw [hrun] at hfirst
    rw [bind_of_error hrun]
    cases hfirst with
    | error hcause => exact .error hcause
  | ok value between =>
    rw [hrun] at hfirst
    rw [bind_of_ok hrun]
    cases hfirst with
    | @ok _ count hcount =>
      have hsecond := hnext value ⟨state.cursor.advance count, state.log⟩
      generalize next value ⟨state.cursor.advance count, state.log⟩ = result at hsecond
      cases hsecond with
      | error hcause => exact .error hcause
      | @ok _ count' hcount' =>
        rw [Cursor.advance_rest, List.length_drop] at hcount'
        rw [Cursor.advance_advance]
        exact .ok (by omega)

theorem Forward.take (count : Nat) : Forward (Decoder.take count) := by
  intro state
  unfold Decoder.take
  cases htaken : state.cursor.take count with
  | error error =>
    obtain ⟨-, rfl⟩ := (Cursor.take_eq_error_iff _ _ _).mp htaken
    exact .error (state.cursor.not_isMismatch_shortage count)
  | ok taken =>
    obtain ⟨bytes, behind⟩ := taken
    obtain ⟨rfl, hbegins, rfl⟩ := (Cursor.take_eq_ok_iff _ _ _ _).mp htaken
    exact .ok hbegins.length_le

theorem Forward.failAt (place : Nat) {cause : DecodeError.Cause} (hcause : ¬cause.IsMismatch) :
    Forward (Decoder.failAt place cause : Decoder α) :=
  fun _ ↦ .error hcause

theorem Forward.offset_bind {next : Nat → Decoder α} (hnext : ∀ place, Forward (next place)) :
    Forward (Decoder.offset >>= next) :=
  fun state ↦ hnext state.cursor.absolute state

theorem closed_forward : Closed fun _ item ↦ Forward item where
  pure := .pure
  bind := .bind
  take := .take
  nesting _ := .offset_bind fun place ↦ .failAt place fun hcause ↦ hcause
  tagged {α next} hnext := by
    have hbyte : Forward u1 :=
      .bind (.bind (.take 1) fun bytes ↦ .pure _) fun number ↦ .pure _
    exact .offset_bind fun place ↦ .bind hbyte fun byte ↦ (hnext place place byte).holds
      fun hcause ↦ .failAt place (DecodeError.Cause.not_isMismatch_of_byte? hcause)

/-- A decoder reports nothing where it gives a value. -/
def Silent (item : Decoder α) : Prop :=
  ∀ state value after, item state = .ok value after → after.log = state.log

/-- What moves forward reports nothing. -/
theorem Forward.silent {item : Decoder α} (hitem : Forward item) : Silent item := by
  intro state value after hrun
  have hadvanced := hitem state
  rw [hrun] at hadvanced
  cases hadvanced with
  | ok hcount => rfl

/-- A plain decoder moves forward. -/
theorem Plain.forward {item : Decoder α} (hitem : Plain item) : Forward item :=
  hitem _ closed_forward

end Decoder

end ClassFormat
