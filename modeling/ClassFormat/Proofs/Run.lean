import ClassFormat.Decoder
import ClassFormat.Proofs.BigEndian

/-!
# Runs of decoders

What a run of a decoder does, said without opening the decoder. `Cursor.take_eq_ok_iff` and
`Cursor.take_eq_error_iff` say what a read gives, `Decoder.bind_eq_ok_iff` takes a run of two
decoders apart, and `Decoder.bounded_of_take_ok` says that a part of the input is read through a
cursor of its own, `Cursor.window`.
-/

set_option autoImplicit false
set_option relaxedAutoImplicit false

namespace ClassFormat

/-- Bytes begin with one word and then another exactly if the second one follows the first. -/
theorem append_prefix_iff {first second bytes : List UInt8} :
    first ++ second <+: bytes ↔ first <+: bytes ∧ second <+: bytes.drop first.length := by
  constructor
  · rintro ⟨rest, rfl⟩
    simp
  · rintro ⟨⟨rest, rfl⟩, hsecond⟩
    rw [List.drop_left] at hsecond
    exact (List.prefix_append_right_inj first).mpr hsecond

namespace DecodeError.Cause

/-- The number of bytes that were asked for, if the cause is that the input ended. -/
def requested? : DecodeError.Cause → Option Nat
  | .truncated requested => some requested
  | _ => none

end DecodeError.Cause

namespace Cursor

/-- The cursor behind the next `count` bytes. -/
def advance (cursor : Cursor) (count : Nat) : Cursor :=
  { cursor with rest := cursor.rest.drop count, position := cursor.position + count }

/-- The place in the whole input at which the bytes of a cursor end. -/
def stop (cursor : Cursor) : Nat :=
  cursor.absolute + cursor.rest.length

/-- The cursor over bytes that begin where another cursor stands. -/
def window (cursor : Cursor) (bytes : List UInt8) : Cursor :=
  { ofBytes bytes with origin := cursor.absolute, depth := cursor.depth + 1 }

@[simp] theorem advance_zero (cursor : Cursor) : cursor.advance 0 = cursor := by
  simp [advance]

@[simp] theorem advance_advance (cursor : Cursor) (first second : Nat) :
    (cursor.advance first).advance second = cursor.advance (first + second) := by
  simp [advance, Nat.add_assoc]

@[simp] theorem advance_rest (cursor : Cursor) (count : Nat) :
    (cursor.advance count).rest = cursor.rest.drop count := rfl

@[simp] theorem advance_position (cursor : Cursor) (count : Nat) :
    (cursor.advance count).position = cursor.position + count := rfl

@[simp] theorem advance_length (cursor : Cursor) (count : Nat) :
    (cursor.advance count).length = cursor.length := rfl

@[simp] theorem advance_ending (cursor : Cursor) (count : Nat) :
    (cursor.advance count).ending = cursor.ending := rfl

@[simp] theorem advance_absolute (cursor : Cursor) (count : Nat) :
    (cursor.advance count).absolute = cursor.absolute + count := by
  simp [advance, absolute, Nat.add_assoc]

@[simp] theorem window_rest (cursor : Cursor) (bytes : List UInt8) :
    (cursor.window bytes).rest = bytes := rfl

@[simp] theorem window_position (cursor : Cursor) (bytes : List UInt8) :
    (cursor.window bytes).position = 0 := rfl

@[simp] theorem window_depth (cursor : Cursor) (bytes : List UInt8) :
    (cursor.window bytes).depth = cursor.depth + 1 := rfl

@[simp] theorem window_length (cursor : Cursor) (bytes : List UInt8) :
    (cursor.window bytes).length = bytes.length := rfl

@[simp] theorem window_absolute (cursor : Cursor) (bytes : List UInt8) :
    (cursor.window bytes).absolute = cursor.absolute := rfl

/-- A read gives exactly the bytes that come next, and needs them all to be there. -/
theorem take_eq_ok_iff (cursor behind : Cursor) (count : Nat) (bytes : List UInt8) :
    cursor.take count = .ok (bytes, behind) ↔
      bytes.length = count ∧ bytes <+: cursor.rest ∧ behind = cursor.advance count := by
  simp only [take]
  constructor
  · intro htaken
    split at htaken
    · rename_i hlength
      cases htaken
      exact ⟨hlength, List.take_prefix _ _, rfl⟩
    · cases htaken
  · rintro ⟨rfl, ⟨rest, hrest⟩, rfl⟩
    simp [← hrest, advance]

/-- A read fails exactly if there are not enough bytes, at the place of the cursor. -/
theorem take_eq_error_iff (cursor : Cursor) (count : Nat) (error : DecodeError) :
    cursor.take count = .error error ↔
      cursor.rest.length < count ∧ error = ⟨cursor.shortage count, cursor.absolute⟩ := by
  simp only [take, List.length_take]
  split
  · simp only [reduceCtorEq, false_iff]
    omega
  · simp only [Except.error.injEq, eq_comm]
    constructor
    · intro herror
      exact ⟨by omega, herror⟩
    · exact fun herror ↦ herror.2

theorem shortage_eq_truncated_iff {cursor : Cursor} {count requested : Nat} :
    cursor.shortage count = .truncated requested ↔
      cursor.ending = .clean ∧ requested = count := by
  cases hending : cursor.ending <;> simp [shortage, hending, eq_comm]

/-- A read that fails reports the end of the input if there is one. -/
theorem mk_shortage_eq_truncated_iff {cursor : Cursor} {count place requested offset : Nat} :
    DecodeError.mk (cursor.shortage count) place = ⟨.truncated requested, offset⟩ ↔
      cursor.ending = .clean ∧ requested = count ∧ offset = place := by
  rw [DecodeError.mk.injEq, shortage_eq_truncated_iff, and_assoc, @eq_comm _ place]

end Cursor

namespace Decoder

variable {α β : Type}

/-- A run of two decoders gives a value if the first does and the second does behind it. -/
theorem bind_eq_ok_iff {item : Decoder α} {next : α → Decoder β} {state after : State}
    {value : β} :
    (item >>= next) state = .ok value after ↔
      ∃ first between, item state = .ok first between ∧
        next first between = .ok value after := by
  show EStateM.bind item next state = _ ↔ _
  unfold EStateM.bind
  cases item state with
  | ok first between => simp [and_assoc]
  | error error between => simp

/-- Behind a decoder that gives a value the next one runs on that value. -/
theorem bind_of_ok {item : Decoder α} {next : α → Decoder β} {state between : State} {value : α}
    (hitem : item state = .ok value between) : (item >>= next) state = next value between := by
  show EStateM.bind item next state = _
  unfold EStateM.bind
  rw [hitem]

/-- A decoder that fails has no other one run behind it. -/
theorem bind_of_error {item : Decoder α} {next : α → Decoder β} {state between : State}
    {error : DecodeError} (hitem : item state = .error error between) :
    (item >>= next) state = .error error between := by
  show EStateM.bind item next state = _
  unfold EStateM.bind
  rw [hitem]

/-! ### Places, events and failures -/

@[simp] theorem pure_run (value : α) (state : State) :
    (pure value : Decoder α) state = .ok value state := rfl

@[simp] theorem depth_run (state : State) : depth state = .ok state.cursor.depth state := rfl

@[simp] theorem remaining_run (state : State) :
    remaining state = .ok state.cursor.remaining state := rfl

@[simp] theorem record_run (event : Event) (state : State) :
    record event state = .ok () ⟨state.cursor, state.log.push event⟩ := rfl

@[simp] theorem failAt_run (place : Nat) (cause : DecodeError.Cause) (state : State) :
    (failAt place cause : Decoder α) state = .error ⟨cause, place⟩ state := rfl

@[simp] theorem fail_run (cause : DecodeError.Cause) (state : State) :
    (fail cause : Decoder α) state = .error ⟨cause, state.cursor.absolute⟩ state := rfl

theorem resolve_eq_ok_iff {place : Nat} {answer : Except LookupError α} {state after : State}
    {value : α} :
    resolve place answer state = .ok value after ↔ answer = .ok value ∧ after = state := by
  cases answer <;> simp [resolve, eq_comm]

/-! ### Values -/

/-- Every value that the decoder gives has the property. -/
def Yields (property : α → Prop) (item : Decoder α) : Prop :=
  ∀ state value after, item state = .ok value after → property value

theorem Yields.pure {property : α → Prop} {value : α} (hvalue : property value) :
    Yields property (Pure.pure value) := by
  rintro state _ after ⟨⟩
  exact hvalue

theorem Yields.bind {property : β → Prop} {item : Decoder α} {next : α → Decoder β}
    (hnext : ∀ value, Yields property (next value)) : Yields property (item >>= next) := by
  intro state value after hrun
  obtain ⟨first, between, -, hsecond⟩ := bind_eq_ok_iff.mp hrun
  exact hnext first between value after hsecond

theorem Yields.failAt {property : α → Prop} (place : Nat) (cause : DecodeError.Cause) :
    Yields property (Decoder.failAt place cause) := by
  rintro state value after ⟨⟩

/-! ### Reads -/

theorem take_run_eq_ok_iff {count : Nat} {state after : State} {bytes : List UInt8} :
    take count state = .ok bytes after ↔
      bytes.length = count ∧ bytes <+: state.cursor.rest ∧
        after = ⟨state.cursor.advance count, state.log⟩ := by
  unfold take
  constructor
  · intro hrun
    split at hrun
    · rename_i htaken
      cases hrun
      obtain ⟨hlength, hbegins, rfl⟩ := (Cursor.take_eq_ok_iff _ _ _ _).mp htaken
      exact ⟨hlength, hbegins, rfl⟩
    · cases hrun
  · rintro ⟨hlength, hbegins, rfl⟩
    rw [(Cursor.take_eq_ok_iff _ _ _ _).mpr ⟨hlength, hbegins, rfl⟩]

/-- A read of more bytes than there are fails and changes nothing. -/
theorem take_of_short {count : Nat} {state : State} (hshort : state.cursor.rest.length < count) :
    take count state =
      .error ⟨state.cursor.shortage count, state.cursor.absolute⟩ state := by
  unfold take
  rw [(Cursor.take_eq_error_iff _ _ _).mpr ⟨hshort, rfl⟩]

theorem take_of_le {state : State} {count : Nat} (hcount : count ≤ state.cursor.rest.length) :
    take count state =
      .ok (state.cursor.rest.take count) ⟨state.cursor.advance count, state.log⟩ :=
  take_run_eq_ok_iff.mpr ⟨List.length_take_of_le hcount, List.take_prefix _ _, rfl⟩

theorem take_of_lt {state : State} (hclean : state.cursor.ending = .clean) {count : Nat}
    (hcount : state.cursor.rest.length < count) :
    take count state = .error ⟨.truncated count, state.cursor.absolute⟩ state := by
  rw [take_of_short hcount, Cursor.shortage, hclean]

/-- Whether bytes are left; the first of them is lost. -/
theorem atEnd_run {state : State} (hclean : state.cursor.ending = .clean) :
    atEnd state = .ok state.cursor.rest.isEmpty
      ⟨{ state.cursor with rest := state.cursor.rest.tail }, state.log⟩ := by
  obtain ⟨⟨rest, position, origin, depth, length, ending⟩, log⟩ := state
  cases hclean
  cases rest <;> rfl

/-- A number is read exactly if its digits come next. -/
theorem unsigned_eq_ok_iff {width value : Nat} {state after : State} :
    unsigned width state = .ok value after ↔
      value < 256 ^ width ∧ BigEndian.ofNat width value <+: state.cursor.rest ∧
        after = ⟨state.cursor.advance width, state.log⟩ := by
  unfold unsigned
  rw [bind_eq_ok_iff]
  constructor
  · rintro ⟨bytes, between, htaken, hvalue⟩
    obtain ⟨rfl, hbegins, rfl⟩ := take_run_eq_ok_iff.mp htaken
    cases hvalue
    exact ⟨BigEndian.toNat_lt bytes, by rwa [BigEndian.ofNat_toNat], rfl⟩
  · rintro ⟨hfits, hbegins, rfl⟩
    refine ⟨_, _, take_run_eq_ok_iff.mpr ⟨BigEndian.length_ofNat width value, hbegins, rfl⟩, ?_⟩
    rw [BigEndian.toNat_ofNat width value hfits]
    rfl

/-- A number is read exactly if its digits come next, for a number type that has just the numbers of
`width` bytes. -/
theorem number_eq_ok_iff {width : Nat} {ofNat : Nat → α} {toNat : α → Nat}
    (hofNat : ∀ value, ofNat (toNat value) = value)
    (htoNat : ∀ number < 256 ^ width, toNat (ofNat number) = number)
    (hfits : ∀ value, toNat value < 256 ^ width) {state after : State} {value : α} :
    (do return ofNat (← unsigned width) : Decoder α) state = .ok value after ↔
      BigEndian.ofNat width (toNat value) <+: state.cursor.rest ∧
        after = ⟨state.cursor.advance width, state.log⟩ := by
  rw [bind_eq_ok_iff]
  constructor
  · rintro ⟨number, between, hread, hvalue⟩
    obtain ⟨hnumber, hbegins, rfl⟩ := unsigned_eq_ok_iff.mp hread
    cases hvalue
    exact ⟨by rwa [htoNat number hnumber], rfl⟩
  · rintro ⟨hbegins, rfl⟩
    refine ⟨toNat value, _, unsigned_eq_ok_iff.mpr ⟨hfits value, hbegins, rfl⟩, ?_⟩
    rw [hofNat]
    rfl

theorem u1_eq_ok_iff {state after : State} {value : UInt8} :
    u1 state = .ok value after ↔
      [value] <+: state.cursor.rest ∧ after = ⟨state.cursor.advance 1, state.log⟩ := by
  have hdigits : BigEndian.ofNat 1 value.toNat = [value] := by simp [BigEndian.ofNat]
  rw [← hdigits]
  exact number_eq_ok_iff (fun _ ↦ UInt8.ofNat_toNat) (fun _ hnumber ↦ Nat.mod_eq_of_lt hnumber)
    fun value ↦ value.toNat_lt

theorem u2_eq_ok_iff {state after : State} {value : UInt16} :
    u2 state = .ok value after ↔
      BigEndian.ofNat 2 value.toNat <+: state.cursor.rest ∧
        after = ⟨state.cursor.advance 2, state.log⟩ :=
  number_eq_ok_iff (fun _ ↦ UInt16.ofNat_toNat) (fun _ hnumber ↦ Nat.mod_eq_of_lt hnumber)
    fun value ↦ value.toNat_lt

theorem u4_eq_ok_iff {state after : State} {value : UInt32} :
    u4 state = .ok value after ↔
      BigEndian.ofNat 4 value.toNat <+: state.cursor.rest ∧
        after = ⟨state.cursor.advance 4, state.log⟩ :=
  number_eq_ok_iff (fun _ ↦ UInt32.ofNat_toNat) (fun _ hnumber ↦ Nat.mod_eq_of_lt hnumber)
    fun value ↦ value.toNat_lt

/-- A byte selects how to go on. -/
theorem tagged_of_cons {next : Nat → UInt8 → Decoder α} {state : State} {byte : UInt8}
    {behind : List UInt8} (hrest : state.cursor.rest = byte :: behind) :
    (offset >>= fun place ↦ u1 >>= next place) state =
      next state.cursor.absolute byte ⟨state.cursor.advance 1, state.log⟩ := by
  have hbegins : [byte] <+: state.cursor.rest := hrest ▸ List.prefix_append [byte] behind
  have hbyte := u1_eq_ok_iff.mpr ⟨hbegins, rfl⟩
  exact bind_of_ok hbyte

/-- Without a byte there is no way to go on. -/
theorem tagged_of_nil {next : Nat → UInt8 → Decoder α} {state : State}
    (hclean : state.cursor.ending = .clean) (hrest : state.cursor.rest = []) :
    (offset >>= fun place ↦ u1 >>= next place) state =
      .error ⟨.truncated 1, state.cursor.absolute⟩ state := by
  have hshort : state.cursor.rest.length < 1 := by rw [hrest]; exact Nat.zero_lt_one
  have hbyte : u1 state = .error ⟨.truncated 1, state.cursor.absolute⟩ state :=
    bind_of_error (bind_of_error (take_of_lt hclean hshort))
  exact (bind_of_ok rfl).trans (bind_of_error hbyte)

theorem u2_of_short {state : State} (hshort : state.cursor.rest.length < 2) :
    u2 state = .error ⟨state.cursor.shortage 2, state.cursor.absolute⟩ state :=
  bind_of_error (bind_of_error (take_of_short hshort))

theorem u4_of_short {state : State} (hshort : state.cursor.rest.length < 4) :
    u4 state = .error ⟨state.cursor.shortage 4, state.cursor.absolute⟩ state :=
  bind_of_error (bind_of_error (take_of_short hshort))

/-! ### Parts of the input -/

/-- The number of bytes that a decoder read stands beside its value. -/
theorem measured_of_ok {item : Decoder α} {state after : State} {value : α}
    (hitem : item state = .ok value after) :
    measured item state =
      .ok (value, after.cursor.position - state.cursor.position) after := by
  show (item >>= _) state = _
  rw [bind_of_ok hitem]
  rfl

theorem measured_of_error {item : Decoder α} {state after : State} {error : DecodeError}
    (hitem : item state = .error error after) : measured item state = .error error after := by
  show (item >>= _) state = _
  rw [bind_of_error hitem]

/-- A part of the input that is not there in full cannot be read. -/
theorem bounded_of_take_error {length : Nat} {overrun : Nat → DecodeError.Cause}
    {body : Decoder α} {state : State} {error : DecodeError}
    (hshort : state.cursor.take length = .error error) :
    bounded length overrun body state = .error error state := by
  unfold bounded Cursor.inside
  rw [hshort]
  rfl

/-- A part of the input is read through a cursor of its own, whatever happens there. -/
theorem bounded_of_take_ok {length : Nat} {overrun : Nat → DecodeError.Cause}
    {body : Decoder α} {state : State} {bytes : List UInt8} {behind : Cursor}
    (htaken : state.cursor.take length = .ok (bytes, behind)) :
    bounded length overrun body state =
      match body ⟨state.cursor.window bytes, state.log⟩ with
      | .ok value after => .ok value ⟨behind, after.log⟩
      | .error error after =>
        .error (overrunAs overrun state.cursor.absolute error) ⟨behind, after.log⟩ := by
  unfold bounded Cursor.inside
  rw [htaken]
  rfl

/-- Running out of a part of the input is no longer running out of input. -/
theorem requested?_overrunAs {overrun : Nat → DecodeError.Cause}
    (hknown : ∀ consumed, (overrun consumed).requested? = none) (origin : Nat)
    (error : DecodeError) : (overrunAs overrun origin error).cause.requested? = none := by
  unfold overrunAs
  split
  · exact hknown _
  · rename_i hother
    cases hcause : error.cause with
    | truncated requested => exact absurd hcause (hother requested)
    | _ => rfl

/-- Running out of input where a part of it is read is not having the bytes of the part. -/
theorem take_of_bounded_error {length : Nat} {overrun : Nat → DecodeError.Cause} {body : Decoder α}
    {state after : State} {error : DecodeError} {requested : Nat}
    (hknown : ∀ consumed, (overrun consumed).requested? = none)
    (hrun : bounded length overrun body state = .error error after)
    (hcause : error.cause.requested? = some requested) :
    state.cursor.take length = .error error := by
  cases htaken : state.cursor.take length with
  | error failure =>
    rw [bounded_of_take_error htaken] at hrun
    cases hrun
    rfl
  | ok taken =>
    rw [bounded_of_take_ok htaken] at hrun
    cases hbody : body ⟨state.cursor.window taken.1, state.log⟩ with
    | ok value inner =>
      rw [hbody] at hrun
      cases hrun
    | error failure inner =>
      rw [hbody] at hrun
      cases hrun
      rw [requested?_overrunAs hknown] at hcause
      cases hcause

end Decoder

end ClassFormat
