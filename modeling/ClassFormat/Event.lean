import ClassFormat.ConstantPool.LookupError

/-!
# Events

What decoding and listing report beside their results, in the order in which it happens. Each event
has a level of detail; a reader of the log picks the events up to a level.
-/

set_option autoImplicit false
set_option relaxedAutoImplicit false

namespace ClassFormat

/-- How much detail an event is. -/
inductive Event.Level where
  | warn
  | debug
  | trace
  deriving DecidableEq, Repr

namespace Event.Level

/-- Zero for the events that are always of interest, more for more detail. -/
def detail : Level → Nat
  | warn => 0
  | debug => 1
  | trace => 2

/-- The label of the level in a log. -/
def label : Level → String
  | warn => "WARN"
  | debug => "DEBUG"
  | trace => "TRACE"

end Event.Level

/-- Something that happened on the way. -/
inductive Event where
  /-- The version of a class file was read. -/
  | version (major minor : UInt16)
  /-- A constant pool was read. -/
  | pool (slots : Nat)
  /-- The members of a class were read. -/
  | members (interfaces fields methods : UInt16)
  /-- The body of an attribute was taken; its header stands at `offset` in the whole input. -/
  | attributeBody (name : String) (length : UInt32) (offset : Nat)
  /-- A file was read. -/
  | content (name : String) (bytes : Nat)
  /-- A listing shows an index because the lookup failed. -/
  | failedLookup (error : LookupError)
  /-- A field or a method that a listing shows has an attribute. -/
  | memberAttribute (name : String)
  deriving DecidableEq, Repr

namespace Event

/-- The level of detail of an event. -/
def level : Event → Level
  | version .. | pool .. | members .. | content .. | memberAttribute .. => .debug
  | attributeBody .. => .trace
  | failedLookup .. => .warn

/-- The text of an event. -/
def message : Event → String
  | version major minor => s!"class file version {major}.{minor}"
  | pool slots => s!"constant pool: {slots} slots"
  | members interfaces fields methods =>
    s!"{interfaces} interfaces, {fields} fields, {methods} methods"
  | attributeBody name length offset => s!"attribute {name} ({length} bytes) at offset {offset}"
  | content name bytes => s!"{name}: {bytes} bytes"
  | failedLookup error => error.message
  | memberAttribute name => s!"  attribute {name}"

/-- The line of an event in a log. -/
def line (event : Event) : String :=
  s!"{event.level.label} {event.message}"

/-- The events of a log up to a level of detail, in order. -/
def upTo (level : Level) (events : List Event) : List Event :=
  events.filter fun event ↦ event.level.detail ≤ level.detail

end Event

end ClassFormat
