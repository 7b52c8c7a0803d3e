import ClassFormat.ConstantPool
import ClassFormat.Event

/-!
# Lines of a listing

A line is made of pieces: fixed text, and answers of the constant pool. A piece whose lookup failed
shows the index instead, so a listing never fails, and its lines still know what there is to report:
the lookups that failed, and the attributes of what they show.
-/

set_option autoImplicit false
set_option relaxedAutoImplicit false

namespace ClassFormat.Listing

/-- A part of a line. -/
inductive Piece where
  | text (content : String)
  /-- What the pool answers for an index. -/
  | answer (index : Nat) (answer : Except LookupError String)
  /-- An attribute of what the line shows, which is reported and not shown. -/
  | attributeNamed (name : String)

namespace Piece

/-- How a piece is shown. -/
def shown : Piece → String
  | .text content => content
  | .answer _ (.ok content) => content
  | .answer index (.error _) => s!"#{index}"
  | .attributeNamed _ => ""

/-- The failed lookup of a piece. -/
def failure? : Piece → Option LookupError
  | .answer _ (.error error) => some error
  | _ => none

/-- What is reported of a piece. -/
def event? : Piece → Option Event
  | .attributeNamed name => some (.memberAttribute name)
  | piece => piece.failure?.map .failedLookup

variable [Text.Decoding]

/-- The name of the class at an index. -/
def className (pool : ConstantPool) (index : UInt16) : Piece :=
  answer index.toNat (pool.className index.toNat)

/-- The text at an index. -/
def textAt (pool : ConstantPool) (index : UInt16) : Piece :=
  answer index.toNat (pool.text index.toNat)

/-- The name and the descriptor at an index, with a colon between them. One failure is enough to
show the index instead of both. -/
def nameAndType (pool : ConstantPool) (index : UInt16) : Piece :=
  answer index.toNat do
    let (name, descriptor) ← pool.nameAndType index.toNat
    return s!"{name}:{descriptor}"

end Piece

/-- A line of a listing. -/
abbrev Line := List Piece

/-- A line of fixed text. -/
def Line.ofText (text : String) : Line :=
  [.text text]

/-- How a line is shown, with its end. -/
def Line.shown (line : Line) : String :=
  String.join (line.map Piece.shown) ++ "\n"

/-- How lines are shown. -/
def shown (lines : List Line) : String :=
  String.join (lines.map Line.shown)

/-- What is reported of lines, in the order in which the pieces stand. -/
def events (lines : List Line) : List Event :=
  lines.flatMap fun line ↦ line.filterMap Piece.event?

end ClassFormat.Listing
