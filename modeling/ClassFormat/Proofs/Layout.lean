import ClassFormat.Proofs.Plain
import Mathlib.Computability.Language
import Mathlib.Order.CompletePartialOrder

/-!
# Layouts

How a value is written, as the language of the words that stand for it. Most values have one word
only (`exactly`), but some bytes of a class file mean nothing and may be any (`blank`), and some
values cannot be written at all (`provided`).

`Decoder.Reads` says that a decoder reads a layout: it gives a value exactly if a word for this
value comes next, and then takes this word. That is both directions of a codec at once, with any
bytes behind. Each combinator of decoders reads a layout made from those of its parts, so that the
layout of a decoder is found by following its text.
-/

set_option autoImplicit false
set_option relaxedAutoImplicit false

namespace ClassFormat

/-! ### Words -/

/-- The language of the words with a property. -/
def words (property : List UInt8 → Prop) : Language UInt8 :=
  {word | property word}

/-- The language of one word. -/
def exactly (bytes : List UInt8) : Language UInt8 :=
  words fun word ↦ word = bytes

/-- The language of all words of a length. -/
def blank (count : Nat) : Language UInt8 :=
  words fun word ↦ word.length = count

/-- A language if a condition holds, and otherwise no word. -/
def provided (condition : Prop) (layout : Language UInt8) : Language UInt8 :=
  words fun word ↦ condition ∧ word ∈ layout

@[simp] theorem mem_words {property : List UInt8 → Prop} {word : List UInt8} :
    word ∈ words property ↔ property word :=
  Iff.rfl

@[simp] theorem mem_exactly {bytes word : List UInt8} : word ∈ exactly bytes ↔ word = bytes :=
  Iff.rfl

@[simp] theorem mem_blank {count : Nat} {word : List UInt8} :
    word ∈ blank count ↔ word.length = count :=
  Iff.rfl

@[simp] theorem mem_provided {condition : Prop} {layout : Language UInt8} {word : List UInt8} :
    word ∈ provided condition layout ↔ condition ∧ word ∈ layout :=
  Iff.rfl

@[simp] theorem notMem_zero {word : List UInt8} : ¬word ∈ (0 : Language UInt8) :=
  Language.notMem_zero word

@[simp] theorem mem_words_mul {property : List UInt8 → Prop} {layout : Language UInt8}
    {word : List UInt8} :
    word ∈ words property * layout ↔ ∃ first, property first ∧ ∃ rest ∈ layout,
      word = first ++ rest := by
  simp [Language.mem_mul, eq_comm]

@[simp] theorem mem_exactly_mul {bytes word : List UInt8} {layout : Language UInt8} :
    word ∈ exactly bytes * layout ↔ ∃ rest ∈ layout, word = bytes ++ rest := by
  simp [Language.mem_mul, eq_comm]

@[simp] theorem mem_provided_mul {condition : Prop} {layout layout' : Language UInt8}
    {word : List UInt8} :
    word ∈ provided condition layout * layout' ↔ condition ∧ word ∈ layout * layout' := by
  simp [Language.mem_mul, and_assoc]

@[simp] theorem mem_mul_nil {condition : Prop} {layout : Language UInt8} {word : List UInt8} :
    word ∈ layout * provided condition (exactly []) ↔ condition ∧ word ∈ layout := by
  simp [Language.mem_mul, and_comm]

/-- The words of several values, one behind the other. -/
def sequence {α : Type} (layout : α → Language UInt8) : List α → Language UInt8
  | [] => exactly []
  | value :: values => layout value * sequence layout values

/-- One word for each value gives one word for all of them. -/
theorem sequence_exactly {α : Type} (bytes : α → List UInt8) (values : List α) :
    sequence (fun value ↦ exactly (bytes value)) values = exactly (values.flatMap bytes) := by
  induction values with
  | nil => rfl
  | cons value values ih =>
    rw [sequence, ih]
    exact Language.ext fun word ↦ by simp

/-- A word for several values falls into one word for each of them. -/
theorem mem_sequence_iff {α : Type} {layout : α → Language UInt8} {values : List α}
    {word : List UInt8} :
    word ∈ sequence layout values ↔
      ∃ entries : List (α × List UInt8), entries.map Prod.fst = values ∧
        entries.flatMap Prod.snd = word ∧ ∀ entry ∈ entries, entry.2 ∈ layout entry.1 := by
  induction values generalizing word with
  | nil =>
    constructor
    · intro hword
      exact ⟨[], rfl, (mem_exactly.mp hword).symm, by simp⟩
    · rintro ⟨entries, hvalues, rfl, -⟩
      rw [List.map_eq_nil_iff.mp hvalues]
      exact mem_exactly.mpr rfl
  | cons value values ih =>
    rw [sequence, Language.mem_mul]
    constructor
    · rintro ⟨first, hfirst, rest, hrest, rfl⟩
      obtain ⟨entries, rfl, rfl, hentries⟩ := ih.mp hrest
      exact ⟨(value, first) :: entries, rfl, rfl, List.forall_mem_cons.mpr ⟨hfirst, hentries⟩⟩
    · rintro ⟨entries, hvalues, rfl, hentries⟩
      obtain ⟨entry, entries, rfl, rfl, rfl⟩ := List.map_eq_cons_iff.mp hvalues
      obtain ⟨hfirst, hentries⟩ := List.forall_mem_cons.mp hentries
      exact ⟨entry.2, hfirst, _, ih.mpr ⟨entries, rfl, rfl, hentries⟩, rfl⟩

/-- Values can be written one behind the other if each of them can be written. -/
theorem sequence_provided {α : Type} (fits : α → Prop) (layout : α → Language UInt8)
    (values : List α) :
    sequence (fun value ↦ provided (fits value) (layout value)) values =
      provided (∀ value ∈ values, fits value) (sequence layout values) := by
  induction values with
  | nil => exact Language.ext fun word ↦ by simp [sequence]
  | cons value values ih =>
    rw [sequence, ih]
    exact Language.ext fun word ↦ by
      simp [sequence, Language.mem_mul, List.forall_mem_cons, -List.mem_cons]
      grind

/-- The bytes of several values behind a count of two bytes. -/
def withCount {α : Type} (bytes : α → List UInt8) (values : List α) : List UInt8 :=
  BigEndian.ofNat 2 values.length ++ values.flatMap bytes

/-- The bytes of several values behind a count of one byte. -/
def withShortCount {α : Type} (bytes : α → List UInt8) (values : List α) : List UInt8 :=
  UInt8.ofNat values.length :: values.flatMap bytes

namespace Decoder

variable {α β : Type} {depth : Nat}

/-- A decoder reads a layout: through a cursor of the given depth it gives a value if one of the
words for this value comes next, and only then, and it takes this word. -/
def Reads (depth : Nat) (item : Decoder α) (layout : α → Language UInt8) : Prop :=
  ∀ (state : State) (value : α) (behind : Cursor), state.cursor.depth = depth →
    ((∃ log, item state = .ok value ⟨behind, log⟩) ↔
      ∃ word ∈ layout value, word <+: state.cursor.rest ∧
        behind = state.cursor.advance word.length)

/-- The same layout may be said in another way. -/
theorem Reads.congr {item : Decoder α} {layout layout' : α → Language UInt8}
    (hreads : Reads depth item layout)
    (hsame : ∀ value word, word ∈ layout value ↔ word ∈ layout' value) :
    Reads depth item layout' := by
  have hlayout : layout = layout' := funext fun value ↦ Language.ext (hsame value)
  rwa [← hlayout]

/-- A decoder that reads a layout and reports nothing gives a value in one way: it takes a word for
it and leaves all else as it was. -/
theorem Reads.eq_ok_iff {item : Decoder α} {layout : α → Language UInt8} {state after : State}
    {value : α} (hreads : Reads state.cursor.depth item layout) (hsilent : Silent item) :
    item state = .ok value after ↔
      ∃ word ∈ layout value, word <+: state.cursor.rest ∧
        after = ⟨state.cursor.advance word.length, state.log⟩ := by
  constructor
  · intro hrun
    obtain ⟨word, hword, hbegins, hcursor⟩ :=
      (hreads state value after.cursor rfl).mp ⟨after.log, hrun⟩
    exact ⟨word, hword, hbegins, congrArg₂ State.mk hcursor (hsilent _ _ _ hrun)⟩
  · rintro ⟨word, hword, hbegins, rfl⟩
    obtain ⟨log, hrun⟩ := (hreads state value _ rfl).mpr ⟨word, hword, hbegins, rfl⟩
    have hlog : log = state.log := hsilent _ _ _ hrun
    rw [hrun, hlog]

/-! ### Values, places and failures -/

theorem Reads.pure (value : α) :
    Reads depth (Pure.pure value) fun other ↦ provided (other = value) (exactly []) := by
  intro state other behind _
  constructor
  · rintro ⟨log, hrun⟩
    cases hrun
    exact ⟨[], ⟨rfl, rfl⟩, List.nil_prefix, by simp⟩
  · rintro ⟨word, ⟨rfl, rfl⟩, -, rfl⟩
    exact ⟨state.log, by simp⟩

/-- One decoder behind the other reads a word for the value of the first and then one for the value
of the second. -/
theorem Reads.bind {item : Decoder α} {next : α → Decoder β} {layout : α → Language UInt8}
    {layouts : α → β → Language UInt8} (hitem : Reads depth item layout)
    (hnext : ∀ value, Reads depth (next value) (layouts value)) :
    Reads depth (item >>= next) fun value ↦ ⨆ first, layout first * layouts first value := by
  intro state value behind hdepth
  constructor
  · rintro ⟨log, hrun⟩
    obtain ⟨first, between, hfirst, hsecond⟩ := bind_eq_ok_iff.mp hrun
    obtain ⟨word, hword, hbegins, hcursor⟩ :=
      (hitem state first between.cursor hdepth).mp ⟨_, hfirst⟩
    obtain ⟨word', hword', hbegins', rfl⟩ :=
      (hnext first between value behind (by rw [hcursor]; exact hdepth)).mp ⟨_, hsecond⟩
    rw [hcursor] at hbegins' ⊢
    refine ⟨word ++ word', ?_, append_prefix_iff.mpr ⟨hbegins, hbegins'⟩, ?_⟩
    · exact Language.mem_iSup.mpr ⟨first, Language.append_mem_mul hword hword'⟩
    · rw [Cursor.advance_advance, List.length_append]
  · rintro ⟨word, hword, hbegins, rfl⟩
    obtain ⟨first, hfirst⟩ := Language.mem_iSup.mp hword
    obtain ⟨left, hleft, right, hright, rfl⟩ := Language.mem_mul.mp hfirst
    obtain ⟨hbefore, hbehind⟩ := append_prefix_iff.mp hbegins
    obtain ⟨log, hrun⟩ := (hitem state first _ hdepth).mpr ⟨left, hleft, hbefore, rfl⟩
    obtain ⟨log', hrun'⟩ := (hnext first ⟨state.cursor.advance left.length, log⟩ value _
      hdepth).mpr ⟨right, hright, hbehind, rfl⟩
    rw [Cursor.advance_advance, ← List.length_append] at hrun'
    exact ⟨log', bind_eq_ok_iff.mpr ⟨first, _, hrun, hrun'⟩⟩

theorem Reads.failAt (place : Nat) (cause : DecodeError.Cause) :
    Reads depth (Decoder.failAt place cause : Decoder α) fun _ ↦ 0 := by
  intro state value behind _
  constructor
  · rintro ⟨log, hrun⟩
    cases hrun
  · rintro ⟨word, hword, -⟩
    exact absurd hword (Language.notMem_zero word)

theorem Reads.offset_bind {next : Nat → Decoder α} {layout : α → Language UInt8}
    (hnext : ∀ place, Reads depth (next place) layout) :
    Reads depth (Decoder.offset >>= next) layout :=
  fun state value behind hdepth ↦ hnext state.cursor.absolute state value behind hdepth

theorem Reads.fail (cause : DecodeError.Cause) :
    Reads depth (Decoder.fail cause : Decoder α) fun _ ↦ 0 :=
  .offset_bind fun place ↦ .failAt place cause

theorem Reads.record_bind {event : Event} {next : Unit → Decoder α}
    {layout : α → Language UInt8} (hnext : Reads depth (next ()) layout) :
    Reads depth (Decoder.record event >>= next) layout :=
  fun state value behind hdepth ↦
    hnext ⟨state.cursor, state.log.push event⟩ value behind hdepth

/-! ### Reading -/

theorem Reads.take (count : Nat) :
    Reads depth (Decoder.take count) fun bytes ↦
      provided (bytes.length = count) (exactly bytes) := by
  intro state bytes behind _
  constructor
  · rintro ⟨log, hrun⟩
    obtain ⟨rfl, hbegins, hafter⟩ := take_run_eq_ok_iff.mp hrun
    cases hafter
    exact ⟨bytes, ⟨rfl, rfl⟩, hbegins, rfl⟩
  · rintro ⟨word, ⟨rfl, rfl⟩, hbegins, rfl⟩
    exact ⟨state.log, take_run_eq_ok_iff.mpr ⟨rfl, hbegins, rfl⟩⟩

/-- What is skipped may be anything. -/
theorem Reads.skip (count : Nat) :
    Reads depth (Decoder.skip count) fun _ ↦ blank count := by
  refine ((Reads.take count).bind fun _ ↦ .pure ()).congr fun _ word ↦ ?_
  simp only [Language.mem_iSup, Language.mem_mul, mem_provided, mem_exactly, mem_blank]
  constructor
  · rintro ⟨bytes, _, ⟨hlength, rfl⟩, _, ⟨-, rfl⟩, rfl⟩
    simpa using hlength
  · exact fun hlength ↦ ⟨word, word, ⟨hlength, rfl⟩, [], ⟨trivial, rfl⟩, List.append_nil word⟩

theorem Reads.u1 : Reads depth Decoder.u1 fun value ↦ exactly [value] := by
  intro state value behind _
  simp only [u1_eq_ok_iff, mem_exactly, exists_eq_left, State.mk.injEq]
  simp

theorem Reads.u2 : Reads depth Decoder.u2 fun value ↦ exactly (BigEndian.ofUInt16 value) := by
  intro state value behind _
  simp [u2_eq_ok_iff, BigEndian.ofUInt16]

theorem Reads.u4 : Reads depth Decoder.u4 fun value ↦ exactly (BigEndian.ofUInt32 value) := by
  intro state value behind _
  simp [u4_eq_ok_iff, BigEndian.ofUInt32]

theorem Reads.resolve (place : Nat) (answer : Except LookupError α) :
    Reads depth (Decoder.resolve place answer) fun value ↦
      provided (answer = .ok value) (exactly []) := by
  intro state value behind _
  simp only [resolve_eq_ok_iff, mem_provided, mem_exactly]
  constructor
  · rintro ⟨log, hanswer, rfl⟩
    exact ⟨[], ⟨hanswer, rfl⟩, List.nil_prefix, by simp⟩
  · rintro ⟨_, ⟨hanswer, rfl⟩, -, rfl⟩
    exact ⟨state.log, hanswer, by simp⟩

/-- Values that correspond to those of another type are written as these. -/
theorem Reads.corresponding {number : Decoder α} {layout : α → Language UInt8} {toValue : α → β}
    {ofValue : β → α} (hnumber : Reads depth number layout)
    (hofValue : ∀ value, ofValue (toValue value) = value)
    (htoValue : ∀ value, toValue (ofValue value) = value) :
    Reads depth (do return toValue (← number)) fun value ↦ layout (ofValue value) := by
  refine (hnumber.bind fun first ↦ .pure (toValue first)).congr fun value word ↦ ?_
  have hsame (first : α) : value = toValue first ↔ first = ofValue value :=
    ⟨fun hvalue ↦ by rw [hvalue, hofValue], fun hfirst ↦ by rw [hfirst, htoValue]⟩
  simp [Language.mem_iSup, hsame]

theorem Reads.s1 : Reads depth Decoder.s1 fun value ↦ exactly [value.toUInt8] :=
  Reads.u1.corresponding UInt8.toUInt8_toInt8 Int8.toInt8_toUInt8

theorem Reads.s2 :
    Reads depth Decoder.s2 fun value ↦ exactly (BigEndian.ofUInt16 value.toUInt16) :=
  Reads.u2.corresponding UInt16.toUInt16_toInt16 Int16.toInt16_toUInt16

theorem Reads.s4 :
    Reads depth Decoder.s4 fun value ↦ exactly (BigEndian.ofUInt32 value.toUInt32) :=
  Reads.u4.corresponding UInt32.toUInt32_toInt32 Int32.toInt32_toUInt32

/-! ### Kinds -/

/-- Where values have kinds, and there is a decoder for each kind, it is enough to follow one
decoder for each value. -/
theorem Reads.of_kind {κ : Type} {kindOf : α → κ} {item : κ → Decoder α}
    {layout : α → Language UInt8}
    (hkind : ∀ kind, Yields (fun value ↦ kindOf value = kind) (item kind))
    (hvalue : ∀ value, ∃ layout', Reads depth (item (kindOf value)) layout' ∧
      ∀ word, word ∈ layout' value ↔ word ∈ layout value) (kind : κ) :
    Reads depth (item kind) fun value ↦ provided (kindOf value = kind) (layout value) := by
  intro state value behind hdepth
  by_cases hsame : kindOf value = kind
  · subst hsame
    obtain ⟨layout', hreads, hlayout⟩ := hvalue value
    rw [hreads state value behind hdepth]
    simp [hlayout]
  · constructor
    · rintro ⟨log, hrun⟩
      exact absurd (hkind kind state value _ hrun) hsame
    · rintro ⟨word, ⟨hother, -⟩, -⟩
      exact absurd hother hsame

/-- What follows a byte may be chosen by it. -/
theorem Reads.tagged {next : UInt8 → Decoder α} (tag : α → UInt8) (layout : α → Language UInt8)
    (hnext : ∀ byte, Reads depth (next byte) fun value ↦
      provided (tag value = byte) (layout value)) :
    Reads depth (Decoder.u1 >>= next) fun value ↦ exactly [tag value] * layout value :=
  (Reads.u1.bind hnext).congr fun value word ↦ by simp [Language.mem_iSup]

/-- Where what follows a byte is chosen by it, and the byte can be told from the value, it is enough
to follow one decoder for each value. -/
theorem Reads.tagged_of_kind {next : UInt8 → Decoder α} (tag : α → UInt8)
    (layout : α → Language UInt8)
    (htag : ∀ byte, Yields (fun value ↦ tag value = byte) (next byte))
    (hvalue : ∀ value, ∃ layout', Reads depth (next (tag value)) layout' ∧
      ∀ word, word ∈ layout' value ↔ word ∈ layout value) :
    Reads depth (Decoder.u1 >>= next) fun value ↦ exactly [tag value] * layout value :=
  .tagged tag layout fun byte ↦ .of_kind htag hvalue byte

/-! ### Sizes -/

section Sizes

variable {ν : Type} {number : Decoder ν} {toNat : ν → Nat} {limit : Nat}
  {digits : Nat → List UInt8} {size : α → Nat} {layout : α → Language UInt8}

/-- A value that is as large as the number before it says is written behind its size. -/
theorem Reads.sized {item : ν → Decoder α}
    (hnumber : Reads depth number fun count ↦ exactly (digits (toNat count)))
    (hlimit : ∀ {bound}, (∃ count, toNat count = bound) ↔ bound < limit)
    (hitem : ∀ count, Reads depth (item count) fun value ↦
      provided (size value = toNat count) (layout value)) :
    Reads depth (number >>= item) fun value ↦
      provided (size value < limit) (exactly (digits (size value)) * layout value) := by
  refine (hnumber.bind hitem).congr fun value word ↦ ?_
  simp only [Language.mem_iSup, mem_exactly_mul, mem_provided]
  constructor
  · rintro ⟨count, rest, ⟨hsize, hrest⟩, rfl⟩
    exact ⟨hlimit.mp ⟨count, hsize.symm⟩, rest, hrest, by rw [hsize]⟩
  · rintro ⟨hfits, rest, hrest, rfl⟩
    obtain ⟨count, hcount⟩ := hlimit.mpr hfits
    exact ⟨count, rest, ⟨hcount.symm, hrest⟩, by rw [hcount]⟩

/-- Where such a value is followed by others, its size is not written again. -/
theorem Reads.sized_bind {item : ν → Decoder α} {next : ν → α → Decoder β}
    {layouts : α → β → Language UInt8}
    (hnumber : Reads depth number fun count ↦ exactly (digits (toNat count)))
    (hlimit : ∀ {bound}, (∃ count, toNat count = bound) ↔ bound < limit)
    (hitem : ∀ count, Reads depth (item count) fun value ↦
      provided (size value = toNat count) (layout value))
    (hnext : ∀ count value, Reads depth (next count value) (layouts value)) :
    Reads depth (number >>= fun count ↦ item count >>= next count) fun result ↦
      ⨆ value, provided (size value < limit)
        (exactly (digits (size value)) * layout value) * layouts value result := by
  refine (hnumber.bind fun count ↦ (hitem count).bind (hnext count)).congr fun result word ↦ ?_
  simp only [Language.mem_iSup, mem_exactly_mul, mem_provided_mul, mul_assoc]
  constructor
  · rintro ⟨count, rest, ⟨value, hsize, hrest⟩, rfl⟩
    exact ⟨value, hlimit.mp ⟨count, hsize.symm⟩, rest, hrest, by rw [hsize]⟩
  · rintro ⟨value, hfits, rest, hrest, rfl⟩
    obtain ⟨count, hcount⟩ := hlimit.mpr hfits
    exact ⟨count, rest, ⟨value, hcount.symm, hrest⟩, by rw [hcount]⟩

theorem Reads.u2_bind_sized_bind {item : UInt16 → Decoder α} {next : UInt16 → α → Decoder β}
    {layouts : α → β → Language UInt8}
    (hitem : ∀ count, Reads depth (item count) fun value ↦
      provided (size value = count.toNat) (layout value))
    (hnext : ∀ count value, Reads depth (next count value) (layouts value)) :
    Reads depth (Decoder.u2 >>= fun count ↦ item count >>= next count) fun result ↦
      ⨆ value, provided (size value < 65536)
        (exactly (BigEndian.ofNat 2 (size value)) * layout value) * layouts value result :=
  Reads.u2.sized_bind BigEndian.exists_uint16_iff hitem hnext

theorem Reads.u4_bind_sized_bind {item : UInt32 → Decoder α} {next : UInt32 → α → Decoder β}
    {layouts : α → β → Language UInt8}
    (hitem : ∀ count, Reads depth (item count) fun value ↦
      provided (size value = count.toNat) (layout value))
    (hnext : ∀ count value, Reads depth (next count value) (layouts value)) :
    Reads depth (Decoder.u4 >>= fun count ↦ item count >>= next count) fun result ↦
      ⨆ value, provided (size value < 0x100000000)
        (exactly (BigEndian.ofNat 4 (size value)) * layout value) * layouts value result :=
  Reads.u4.sized_bind BigEndian.exists_uint32_iff hitem hnext

end Sizes

/-! ### Repetition -/

theorem Reads.times {item : Decoder α} {layout : α → Language UInt8}
    (hitem : Reads depth item layout) (count : Nat) :
    Reads depth (Decoder.times count item) fun values ↦
      provided (values.length = count) (sequence layout values) := by
  induction count with
  | zero =>
    refine (Reads.pure []).congr fun values word ↦ ?_
    cases values <;> simp [sequence]
  | succ count ih =>
    rw [times_succ]
    refine (hitem.bind fun value ↦ ih.bind fun values ↦ .pure (value :: values)).congr
      fun values word ↦ ?_
    cases values with
    | nil => simp [Language.mem_iSup, Language.mem_mul]
    | cons value values =>
      simp [Language.mem_iSup, Language.mem_mul, sequence]
      grind

theorem Reads.counted {item : Decoder α} {layout : α → Language UInt8}
    (hitem : Reads depth item layout) :
    Reads depth (Decoder.counted item) fun values ↦ provided (values.length < 65536)
      (exactly (BigEndian.ofNat 2 values.length) * sequence layout values) :=
  Reads.u2.sized BigEndian.exists_uint16_iff fun count ↦ hitem.times count.toNat

theorem Reads.shortCounted {item : Decoder α} {layout : α → Language UInt8}
    (hitem : Reads depth item layout) :
    Reads depth (Decoder.shortCounted item) fun values ↦ provided (values.length < 256)
      (exactly [UInt8.ofNat values.length] * sequence layout values) := by
  have hnumber : Reads depth Decoder.u1 fun count ↦ exactly (BigEndian.ofNat 1 count.toNat) :=
    Reads.u1.congr fun count word ↦ by simp [BigEndian.ofNat]
  exact hnumber.sized BigEndian.exists_uint8_iff fun count ↦ hitem.times count.toNat

theorem Reads.counted_exactly {item : Decoder α} {fits : α → Prop} {bytes : α → List UInt8}
    (hitem : Reads depth item fun value ↦ provided (fits value) (exactly (bytes value))) :
    Reads depth (Decoder.counted item) fun values ↦
      provided (values.length < 65536 ∧ ∀ value ∈ values, fits value)
        (exactly (withCount bytes values)) :=
  hitem.counted.congr fun values word ↦ by
    simp [sequence_provided, sequence_exactly, withCount, and_assoc]

theorem Reads.shortCounted_exactly {item : Decoder α} {fits : α → Prop} {bytes : α → List UInt8}
    (hitem : Reads depth item fun value ↦ provided (fits value) (exactly (bytes value))) :
    Reads depth (Decoder.shortCounted item) fun values ↦
      provided (values.length < 256 ∧ ∀ value ∈ values, fits value)
        (exactly (withShortCount bytes values)) :=
  hitem.shortCounted.congr fun values word ↦ by
    simp [sequence_provided, sequence_exactly, withShortCount, and_assoc]

/-! ### Parts of the input -/

theorem Reads.depth_bind {next : Nat → Decoder α} {layout : α → Language UInt8}
    (hnext : Reads depth (next depth) layout) : Reads depth (Decoder.depth >>= next) layout := by
  intro state value behind hdepth
  rw [bind_of_ok (depth_run state), hdepth]
  exact hnext state value behind hdepth

/-- The number of bytes that are measured is the length of the word. -/
theorem Reads.measured {item : Decoder α} {layout : α → Language UInt8}
    (hitem : Reads depth item layout) :
    Reads depth (Decoder.measured item) fun value ↦
      words fun word ↦ word ∈ layout value.1 ∧ word.length = value.2 := by
  rintro state ⟨value, size⟩ behind hdepth
  constructor
  · rintro ⟨log, hrun⟩
    cases hinner : item state with
    | error error after =>
      rw [measured_of_error hinner] at hrun
      cases hrun
    | ok first after =>
      rw [measured_of_ok hinner] at hrun
      cases hrun
      obtain ⟨word, hword, hbegins, hbehind⟩ := (hitem state value _ hdepth).mp ⟨_, hinner⟩
      exact ⟨word, ⟨hword, by rw [hbehind]; simp⟩, hbegins, hbehind⟩
  · rintro ⟨word, ⟨hword, rfl⟩, hbegins, rfl⟩
    obtain ⟨log, hinner⟩ := (hitem state value _ hdepth).mpr ⟨word, hword, hbegins, rfl⟩
    refine ⟨log, ?_⟩
    rw [measured_of_ok hinner]
    simp

/-- A part of the input holds a word of the decoder that runs inside, and perhaps more. -/
theorem Reads.bounded {body : Decoder α} {layout : α → Language UInt8} (length : Nat)
    (overrun : Nat → DecodeError.Cause) (hbody : Reads (depth + 1) body layout) :
    Reads depth (Decoder.bounded length overrun body) fun value ↦
      words fun bytes ↦ bytes.length = length ∧ ∃ word ∈ layout value, word <+: bytes := by
  intro state value behind hdepth
  have hinner (bytes : List UInt8) := hbody ⟨state.cursor.window bytes, state.log⟩ value
  constructor
  · rintro ⟨log, hrun⟩
    cases htaken : state.cursor.take length with
    | error error =>
      rw [bounded_of_take_error htaken] at hrun
      cases hrun
    | ok taken =>
      obtain ⟨bytes, after⟩ := taken
      obtain ⟨hlength, hbegins, rfl⟩ := (Cursor.take_eq_ok_iff _ _ _ _).mp htaken
      rw [bounded_of_take_ok htaken] at hrun
      cases hresult : body ⟨state.cursor.window bytes, state.log⟩ with
      | error error inner =>
        rw [hresult] at hrun
        cases hrun
      | ok result inner =>
        rw [hresult] at hrun
        cases hrun
        obtain ⟨word, hword, hwithin, -⟩ :=
          (hinner bytes inner.cursor (by simp [hdepth])).mp ⟨_, hresult⟩
        exact ⟨bytes, ⟨hlength, word, hword, hwithin⟩, hbegins, by rw [hlength]⟩
  · rintro ⟨bytes, ⟨rfl, word, hword, hwithin⟩, hbegins, rfl⟩
    have htaken := (Cursor.take_eq_ok_iff state.cursor _ bytes.length bytes).mpr
      ⟨rfl, hbegins, rfl⟩
    obtain ⟨log, hresult⟩ :=
      (hinner bytes _ (by simp [hdepth])).mpr ⟨word, hword, hwithin, rfl⟩
    refine ⟨log, ?_⟩
    rw [bounded_of_take_ok htaken, hresult]

end Decoder

end ClassFormat
