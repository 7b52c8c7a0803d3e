import ClassFormat.Text.Decoding

/-!
# Modified UTF-8

Names in a class file are stored as modified UTF-8: every UTF-16 unit of the text is written by
itself in one to three bytes, so a character beyond U+FFFF is a surrogate pair of three bytes each,
and the unit zero takes two bytes so that no zero byte occurs. Reading goes through the units:
`units?` undoes the bytes, `characters?` joins the pairs, and `decode` is one after the other. Every
text has one written form, which `encode` gives. Texts are read so wherever no other decoding is
given.
-/

set_option autoImplicit false
set_option relaxedAutoImplicit false

namespace ClassFormat.Text.ModifiedUtf8

/-- The six payload bits of a continuation byte. -/
def continuation? (byte : UInt8) : Option Nat :=
  if 0x80 ≤ byte ∧ byte < 0xc0 then some (byte.toNat - 0x80) else none

/-- The unit that a two-byte form stands for. Units of one byte are refused here, except zero, which
has no other form. -/
def twoByteUnit? (lead next : UInt8) : Option Nat := do
  let low ← continuation? next
  let unit := (lead.toNat - 0xc0) * 0x40 + low
  if unit = 0 ∨ 0x80 ≤ unit then some unit else none

/-- The unit that a three-byte form stands for. Units with a shorter form are refused. -/
def threeByteUnit? (lead next last : UInt8) : Option Nat := do
  let middle ← continuation? next
  let low ← continuation? last
  let unit := (lead.toNat - 0xe0) * 0x1000 + middle * 0x40 + low
  if 0x800 ≤ unit then some unit else none

/-- The UTF-16 units that the bytes are the written form of, onto those already read. -/
def unitsOnto? (done : List Nat) : List UInt8 → Option (List Nat)
  | [] => some done.reverse
  | lead :: rest =>
    if lead = 0 then none
    else if lead < 0x80 then unitsOnto? (lead.toNat :: done) rest
    else if lead < 0xc0 then none
    else if lead < 0xe0 then
      match rest with
      | next :: rest =>
        match twoByteUnit? lead next with
        | some unit => unitsOnto? (unit :: done) rest
        | none => none
      | [] => none
    else if lead < 0xf0 then
      match rest with
      | next :: last :: rest =>
        match threeByteUnit? lead next last with
        | some unit => unitsOnto? (unit :: done) rest
        | none => none
      | _ => none
    else none

/-- The UTF-16 units that the bytes are the written form of. -/
def units? (bytes : List UInt8) : Option (List Nat) :=
  unitsOnto? [] bytes

/-- Units that open a surrogate pair. -/
def isHighSurrogate (unit : Nat) : Bool :=
  0xd800 ≤ unit && unit < 0xdc00

/-- Units that close a surrogate pair. -/
def isLowSurrogate (unit : Nat) : Bool :=
  0xdc00 ≤ unit && unit < 0xe000

/-- The characters of a sequence of units, onto those already joined. A surrogate without its
partner has no character. -/
def charactersOnto? (done : List Char) : List Nat → Option (List Char)
  | [] => some done.reverse
  | unit :: rest =>
    if isHighSurrogate unit then
      match rest with
      | low :: rest =>
        if isLowSurrogate low then
          let character := Char.ofNat (0x10000 + (unit - 0xd800) * 0x400 + (low - 0xdc00))
          charactersOnto? (character :: done) rest
        else none
      | [] => none
    else if isLowSurrogate unit then none
    else charactersOnto? (Char.ofNat unit :: done) rest

/-- The characters of a sequence of UTF-16 units. -/
def characters? (units : List Nat) : Option (List Char) :=
  charactersOnto? [] units

/-- The text whose written form the bytes are, if there is one. -/
def decode (bytes : List UInt8) : Option String :=
  (units? bytes).bind fun units ↦ (characters? units).map String.ofList

instance : Decoding := ⟨decode⟩

/-- The UTF-16 units of one character. -/
def unitsOf (character : Char) : List Nat :=
  let code := character.toNat
  if code < 0x10000 then [code]
  else [0xd800 + (code - 0x10000) / 0x400, 0xdc00 + (code - 0x10000) % 0x400]

/-- The written form of one unit. -/
def encodeUnit (unit : Nat) : List UInt8 :=
  if unit ≠ 0 ∧ unit < 0x80 then [UInt8.ofNat unit]
  else if unit < 0x800 then
    [UInt8.ofNat (0xc0 + unit / 0x40), UInt8.ofNat (0x80 + unit % 0x40)]
  else
    [UInt8.ofNat (0xe0 + unit / 0x1000), UInt8.ofNat (0x80 + unit / 0x40 % 0x40),
      UInt8.ofNat (0x80 + unit % 0x40)]

/-- The written form of a text: its UTF-16 units one after the other. -/
def encode (text : String) : List UInt8 :=
  (text.toList.flatMap unitsOf).flatMap encodeUnit

end ClassFormat.Text.ModifiedUtf8
