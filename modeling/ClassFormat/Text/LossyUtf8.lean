/-!
# Bytes shown as UTF-8

Attribute names are shown in messages whatever their bytes are. Well-formed UTF-8 shows as the text
it encodes. Elsewhere a longest run of bytes that begins a well-formed sequence, or else a single
byte, shows as one replacement character.
-/

set_option autoImplicit false
set_option relaxedAutoImplicit false

namespace ClassFormat.Text.LossyUtf8

/-- What shows in place of bytes that encode nothing. -/
def replacement : Char := '\ufffd'

/-- The values a byte may take at some place of a sequence. -/
structure Bounds where
  low : UInt8
  high : UInt8

/-- Whether the byte lies within the bounds. -/
def Bounds.admits (bounds : Bounds) (byte : UInt8) : Bool :=
  bounds.low ≤ byte && byte ≤ bounds.high

/-- Any continuation byte. -/
def Bounds.continuation : Bounds := ⟨0x80, 0xbf⟩

/-- A sequence that has begun: its payload so far and the bytes that may follow. -/
structure Pending where
  payload : Nat
  expected : List Bounds

/-- What a byte begins: nothing, a whole one-byte sequence (with nothing expected), or a longer one.
The first continuation byte is bounded so that overlong forms, surrogates and values beyond the last
code point are excluded. -/
def start? (byte : UInt8) : Option Pending :=
  if byte < 0x80 then some ⟨byte.toNat, []⟩
  else if byte < 0xc2 then none
  else if byte < 0xe0 then some ⟨byte.toNat - 0xc0, [.continuation]⟩
  else if byte = 0xe0 then some ⟨0x0, [⟨0xa0, 0xbf⟩, .continuation]⟩
  else if byte = 0xed then some ⟨0xd, [⟨0x80, 0x9f⟩, .continuation]⟩
  else if byte < 0xf0 then some ⟨byte.toNat - 0xe0, [.continuation, .continuation]⟩
  else if byte = 0xf0 then some ⟨0x0, [⟨0x90, 0xbf⟩, .continuation, .continuation]⟩
  else if byte < 0xf4 then
    some ⟨byte.toNat - 0xf0, [.continuation, .continuation, .continuation]⟩
  else if byte = 0xf4 then some ⟨0x4, [⟨0x80, 0x8f⟩, .continuation, .continuation]⟩
  else none

/-- What has been shown, newest first, and the sequence that is open behind it. -/
structure Progress where
  shown : List Char
  pending : Option Pending

/-- Closes a sequence that expects nothing more. -/
def Progress.settle (shown : List Char) (pending : Pending) : Progress :=
  match pending.expected with
  | [] => ⟨Char.ofNat pending.payload :: shown, none⟩
  | _ :: _ => ⟨shown, some pending⟩

/-- Takes a byte at which no sequence is open. -/
def Progress.begin (shown : List Char) (byte : UInt8) : Progress :=
  match start? byte with
  | some pending => settle shown pending
  | none => ⟨replacement :: shown, none⟩

/-- Takes one byte: it continues the open sequence, or else the open sequence is replaced and the
byte begins anew. -/
def Progress.step (progress : Progress) (byte : UInt8) : Progress :=
  match progress.pending with
  | none => begin progress.shown byte
  | some ⟨payload, []⟩ => begin (Char.ofNat payload :: progress.shown) byte
  | some ⟨payload, bounds :: expected⟩ =>
    if bounds.admits byte then
      settle progress.shown ⟨payload * 0x40 + (byte.toNat - 0x80), expected⟩
    else begin (replacement :: progress.shown) byte

/-- The text shown for the bytes. -/
def decode (bytes : List UInt8) : String :=
  let progress := bytes.foldl Progress.step ⟨[], none⟩
  let shown := match progress.pending with
    | none => progress.shown
    | some _ => replacement :: progress.shown
  String.ofList shown.reverse

end ClassFormat.Text.LossyUtf8
