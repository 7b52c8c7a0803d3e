import ClassFormat.BigEndian
import ClassFormat.Cursor
import ClassFormat.Event

/-!
# Decoders

A decoder reads a value through a cursor, may stop with an error, and reports events. Where it
stops, the place of the cursor and the events so far are still there: both are answers of their own.

The combinators are few. `take` is the only one that reads, `times` and `counted` repeat, and
`bounded` runs a decoder over a part of the input and says what running out of that part means.
-/

set_option autoImplicit false
set_option relaxedAutoImplicit false

namespace ClassFormat

/-- What a decoder works on: the place reached, and the events so far. -/
structure Decoder.State where
  cursor : Cursor
  log : Array Event
  deriving DecidableEq, Repr

/-- A way to read a value. -/
abbrev Decoder := EStateM DecodeError Decoder.State

namespace Decoder

variable {α : Type}

/-- The state before anything was read. -/
def State.start (cursor : Cursor) : State :=
  ⟨cursor, #[]⟩

/-! ### Place and failure -/

/-- The place of the cursor in the whole input. -/
def offset : Decoder Nat := fun state ↦ .ok state.cursor.absolute state

/-- How many bytes were read through the cursor. -/
def position : Decoder Nat := fun state ↦ .ok state.cursor.position state

/-- How many other cursors the cursor was taken inside of. -/
def depth : Decoder Nat := fun state ↦ .ok state.cursor.depth state

/-- How many of the bytes that the cursor was made over are left. -/
def remaining : Decoder Nat := fun state ↦ .ok state.cursor.remaining state

/-- Stops with a cause that concerns the given place of the whole input. -/
def failAt (offset : Nat) (cause : DecodeError.Cause) : Decoder α :=
  throw ⟨cause, offset⟩

/-- Stops with a cause that concerns the place of the cursor. -/
def fail (cause : DecodeError.Cause) : Decoder α := do
  failAt (← offset) cause

/-- Reports an event. -/
def record (event : Event) : Decoder Unit :=
  modify fun state ↦ { state with log := state.log.push event }

/-- The answer of a lookup; a failed one concerns the given place. -/
def resolve (offset : Nat) (answer : Except LookupError α) : Decoder α :=
  match answer with
  | .ok value => return value
  | .error error => failAt offset (.lookup error)

/-! ### Reading -/

/-- The next `count` bytes. -/
def take (count : Nat) : Decoder (List UInt8) := fun state ↦
  match state.cursor.take count with
  | .ok (bytes, cursor) => .ok bytes { state with cursor }
  | .error error => .error error state

/-- Reads `count` bytes and drops them. -/
def skip (count : Nat) : Decoder Unit := do
  discard (take count)

/-- Whether there are no bytes left; a byte that is met is lost. -/
def atEnd : Decoder Bool := fun state ↦
  match state.cursor.atEnd with
  | .ok (answer, cursor) => .ok answer { state with cursor }
  | .error error => .error error state

/-- An unsigned number of `width` bytes. -/
def unsigned (width : Nat) : Decoder Nat := do
  return BigEndian.toNat (← take width)

/-- An unsigned byte. -/
def u1 : Decoder UInt8 := do
  return UInt8.ofNat (← unsigned 1)

/-- An unsigned number of two bytes. -/
def u2 : Decoder UInt16 := do
  return UInt16.ofNat (← unsigned 2)

/-- An unsigned number of four bytes. -/
def u4 : Decoder UInt32 := do
  return UInt32.ofNat (← unsigned 4)

/-- A signed byte. -/
def s1 : Decoder Int8 := do
  return (← u1).toInt8

/-- A signed number of two bytes. -/
def s2 : Decoder Int16 := do
  return (← u2).toInt16

/-- A signed number of four bytes. -/
def s4 : Decoder Int32 := do
  return (← u4).toInt32

/-! ### Repetition -/

/-- Reads `count` values onto those already read, which are held in reverse. -/
def timesOnto (item : Decoder α) : Nat → List α → Decoder (List α)
  | 0, done => return done.reverse
  | count + 1, done => do timesOnto item count ((← item) :: done)

/-- Reads `count` values. -/
def times (count : Nat) (item : Decoder α) : Decoder (List α) :=
  timesOnto item count []

/-- Reads a count of two bytes and then as many values. -/
def counted (item : Decoder α) : Decoder (List α) := do
  times (← u2).toNat item

/-- Reads a count of one byte and then as many values. -/
def shortCounted (item : Decoder α) : Decoder (List α) := do
  times (← u1).toNat item

theorem timesOnto_eq (item : Decoder α) (count : Nat) (done : List α) :
    timesOnto item count done = (do return done.reverse ++ (← times count item)) := by
  induction count generalizing done with
  | zero => simp [times, timesOnto]
  | succ count ih =>
    simp only [times, timesOnto, bind_assoc]
    congr 1
    funext value
    rw [ih, ih [value]]
    simp

@[simp] theorem times_zero (item : Decoder α) : times 0 item = pure [] := rfl

/-- Reading one value more is reading it and then the others. -/
theorem times_succ (item : Decoder α) (count : Nat) :
    times (count + 1) item = (do return (← item) :: (← times count item)) := by
  simp only [times, timesOnto]
  congr 1
  funext value
  rw [timesOnto_eq]
  rfl

/-! ### Parts of the input -/

/-- Runs a decoder and says how many bytes it read. -/
def measured (item : Decoder α) : Decoder (α × Nat) := do
  let before ← position
  let value ← item
  let after ← position
  return (value, after - before)

/-- An error from within a part of the input that begins at `origin`. Running out of the part
becomes the cause that `overrun` gives for the number of bytes which would have been needed. -/
def overrunAs (overrun : Nat → DecodeError.Cause) (origin : Nat) (error : DecodeError) :
    DecodeError :=
  match error.cause with
  | .truncated requested => ⟨overrun (error.offset - origin + requested), error.offset⟩
  | _ => error

/-- Runs a decoder over exactly the next `length` bytes. -/
def bounded (length : Nat) (overrun : Nat → DecodeError.Cause) (body : Decoder α) : Decoder α :=
  fun state ↦
    match state.cursor.inside length with
    | .error error => .error error state
    | .ok (inner, behind) =>
      match body ⟨inner, state.log⟩ with
      | .ok value after => .ok value ⟨behind, after.log⟩
      | .error error after => .error (overrunAs overrun inner.origin error) ⟨behind, after.log⟩

end Decoder

end ClassFormat
