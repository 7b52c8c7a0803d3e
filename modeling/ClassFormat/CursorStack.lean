import ClassFormat.Decoder

/-!
# Stacks of cursors

A cursor over a part of the input lives on after it was taken, beside the cursor that it was taken
from. A stack holds the outermost cursor and, inside it, the cursors that were taken one inside the
other. Operations work on the innermost one.
-/

set_option autoImplicit false
set_option relaxedAutoImplicit false

namespace ClassFormat

/-- The outermost cursor and those inside it, the innermost first. -/
structure CursorStack where
  outermost : Cursor
  inner : List Cursor
  deriving DecidableEq, Repr

namespace CursorStack

/-- A stack of one cursor. -/
def ofCursor (cursor : Cursor) : CursorStack :=
  ⟨cursor, []⟩

/-- The innermost cursor. -/
def current (stack : CursorStack) : Cursor :=
  stack.inner.headD stack.outermost

/-- The stack with another innermost cursor. -/
def replaceCurrent (stack : CursorStack) (cursor : Cursor) : CursorStack :=
  match stack.inner with
  | [] => { stack with outermost := cursor }
  | _ :: others => { stack with inner := cursor :: others }

/-- Reads through the innermost cursor. -/
def read {α : Type} (stack : CursorStack) (item : Decoder α) :
    Except DecodeError (α × CursorStack) :=
  match item.run (.start stack.current) with
  | .ok value after => .ok (value, stack.replaceCurrent after.cursor)
  | .error error _ => .error error

/-- Takes a cursor over the next `length` bytes inside the innermost one. -/
def enter (stack : CursorStack) (length : Nat) : Except DecodeError CursorStack := do
  let (inside, behind) ← stack.current.inside length
  let stack := stack.replaceCurrent behind
  return { stack with inner := inside :: stack.inner }

/-- Drops the innermost cursor, unless it is the outermost one. -/
def leave? (stack : CursorStack) : Option CursorStack :=
  match stack.inner with
  | [] => none
  | _ :: others => some { stack with inner := others }

end CursorStack

end ClassFormat
