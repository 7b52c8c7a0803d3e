import ClassFormat.DecodeError

/-!
# Cursors

A cursor stands at a place in a sequence of bytes and moves forward only. It counts twice:
`position` from where the cursor began, `absolute` from the start of the whole input. A cursor over
a part of the input is taken with `inside`; it is bounded by that part and knows where the part
lies.
-/

set_option autoImplicit false
set_option relaxedAutoImplicit false

namespace ClassFormat

/-- What is met behind the last byte of a source. -/
inductive Ending where
  /-- The source ends. -/
  | clean
  /-- The source fails. -/
  | fault
  deriving DecidableEq, Repr

/-- A place in a sequence of bytes. -/
structure Cursor where
  /-- The bytes that are still to be delivered. -/
  rest : List UInt8
  /-- How many bytes were read through this cursor. -/
  position : Nat
  /-- Where in the whole input this cursor began. -/
  origin : Nat
  /-- How many cursors this one was taken inside of. -/
  depth : Nat
  /-- How many bytes the cursor was made over. -/
  length : Nat
  ending : Ending
  deriving DecidableEq, Repr

namespace Cursor

/-- The outermost cursor over the given bytes. -/
def ofBytes (bytes : List UInt8) : Cursor where
  rest := bytes
  position := 0
  origin := 0
  depth := 0
  length := bytes.length
  ending := .clean

/-- The outermost cursor over a source that fails when more than its first `limit` bytes are asked
for. A source with fewer bytes than that just ends. -/
def ofFailing (bytes : List UInt8) (limit : Nat) : Cursor :=
  if limit ≤ bytes.length then { ofBytes (bytes.take limit) with ending := .fault }
  else ofBytes bytes

/-- The place of the cursor in the whole input. -/
def absolute (cursor : Cursor) : Nat :=
  cursor.origin + cursor.position

/-- How many of the bytes that the cursor was made over have not been read. -/
def remaining (cursor : Cursor) : Nat :=
  cursor.length - cursor.position

/-- Why `count` bytes cannot be had. -/
def shortage (cursor : Cursor) (count : Nat) : DecodeError.Cause :=
  match cursor.ending with
  | .clean => .truncated count
  | .fault => .sourceFault

/-- The next `count` bytes, and the cursor behind them. -/
def take (cursor : Cursor) (count : Nat) : Except DecodeError (List UInt8 × Cursor) :=
  let taken := cursor.rest.take count
  if taken.length = count then
    .ok (taken,
      { cursor with rest := cursor.rest.drop count, position := cursor.position + count })
  else .error ⟨cursor.shortage count, cursor.absolute⟩

/-- A cursor over exactly the next `count` bytes, and the cursor behind them. -/
def inside (cursor : Cursor) (count : Nat) : Except DecodeError (Cursor × Cursor) := do
  let (bytes, behind) ← cursor.take count
  let inner := { ofBytes bytes with origin := cursor.absolute, depth := cursor.depth + 1 }
  return (inner, behind)

/-- Whether there are no bytes left. A byte that is met on this occasion is lost: it will not be
delivered, and the position does not count it. -/
def atEnd (cursor : Cursor) : Except DecodeError (Bool × Cursor) :=
  match cursor.rest, cursor.ending with
  | [], .clean => .ok (true, cursor)
  | [], .fault => .error ⟨.sourceFault, cursor.absolute⟩
  | _ :: rest, _ => .ok (false, { cursor with rest })

end Cursor

end ClassFormat
