import ClassFormat.Proofs.Layout
import Mathlib.Data.Set.Image
import Mathlib.Order.Bounds.Basic

/-!
# Values within values

A value may hold others, and how deep they may lie is limited: the decoder refuses a value that lies
too deep before anything of it is read. `Decoder.Settles` is what a decoder does where the bytes of
a value come next. Given the positions in these bytes at which values lie too deep, it gives the
value if there are none, and otherwise it stops at the first of them.

This is kept when decoders are put together. The positions of what is read second lie behind all of
what was read first, so the first of them is the first one of either part.
-/

set_option autoImplicit false
set_option relaxedAutoImplicit false

namespace ClassFormat.Decoder

variable {α β : Type} {cause : DecodeError.Cause}

/-! ### Positions -/

/-- Positions, moved behind some bytes. -/
def moved (count : Nat) (positions : Set Nat) : Set Nat :=
  (count + ·) '' positions

@[simp] theorem moved_empty (count : Nat) : moved count ∅ = ∅ :=
  Set.image_empty _

@[simp] theorem moved_moved (first second : Nat) (positions : Set Nat) :
    moved first (moved second positions) = moved (first + second) positions := by
  simp [moved, Set.image_image, Nat.add_assoc]

theorem moved_nonempty {count : Nat} {positions : Set Nat} :
    (moved count positions).Nonempty ↔ positions.Nonempty :=
  Set.image_nonempty

theorem isLeast_moved {count position : Nat} {positions : Set Nat}
    (hleast : IsLeast positions position) : IsLeast (moved count positions) (count + position) := by
  refine ⟨⟨position, hleast.1, rfl⟩, ?_⟩
  rintro _ ⟨other, hother, rfl⟩
  exact Nat.add_le_add_left (hleast.2 hother) count

/-- The positions in the bytes of several values, given those in the bytes of each. -/
def positionsIn (bytes : α → List UInt8) (deep : α → Set Nat) : List α → Set Nat
  | [] => ∅
  | value :: values => deep value ∪ moved (bytes value).length (positionsIn bytes deep values)

theorem mem_positionsIn_iff {bytes : α → List UInt8} {deep : α → Set Nat} {values : List α}
    {position : Nat} :
    position ∈ positionsIn bytes deep values ↔
      ∃ before value after inside, values = before ++ value :: after ∧ inside ∈ deep value ∧
        position = (before.flatMap bytes).length + inside := by
  induction values generalizing position with
  | nil => simp [positionsIn]
  | cons first values ih =>
    constructor
    · rintro (hfirst | ⟨_, hbehind, rfl⟩)
      · exact ⟨[], first, values, position, rfl, hfirst, (Nat.zero_add position).symm⟩
      · obtain ⟨before, value, after, inside, rfl, hinside, rfl⟩ := ih.mp hbehind
        refine ⟨first :: before, value, after, inside, rfl, hinside, ?_⟩
        rw [List.flatMap_cons, List.length_append, Nat.add_assoc]
    · rintro ⟨before, value, after, inside, hvalues, hinside, rfl⟩
      cases before with
      | nil =>
        cases hvalues
        exact .inl (by simpa using hinside)
      | cons _ before =>
        cases hvalues
        refine .inr ⟨_, ih.mpr ⟨before, value, after, inside, rfl, hinside, rfl⟩, ?_⟩
        rw [List.flatMap_cons, List.length_append, Nat.add_assoc]

theorem positionsIn_nonempty {bytes : α → List UInt8} {deep : α → Set Nat} {values : List α} :
    (positionsIn bytes deep values).Nonempty ↔ ∃ value ∈ values, (deep value).Nonempty := by
  induction values with
  | nil => simp [positionsIn]
  | cons value values ih => simp [positionsIn, Set.union_nonempty, moved_nonempty, ih]

/-! ### Decoders -/

/-- What may come of reading where the bytes of a value come next. -/
inductive Settled (cause : DecodeError.Cause) (value : α) (bytes : List UInt8) (deep : Set Nat)
    (state : State) : EStateM.Result DecodeError State α → Prop
  | read {log : Array Event} (hdeep : deep = ∅) :
    Settled cause value bytes deep state (.ok value ⟨state.cursor.advance bytes.length, log⟩)
  | refused {position : Nat} {after : State} (hleast : IsLeast deep position)
    (hposition : position ≤ bytes.length) :
    Settled cause value bytes deep state
      (.error ⟨cause, state.cursor.absolute + position⟩ after)

/-- Where the bytes of the value come next, the decoder gives this value, or it stops at the first
position at which something lies too deep. -/
def Settles (cause : DecodeError.Cause) (item : Decoder α) (value : α) (bytes : List UInt8)
    (deep : Set Nat) : Prop :=
  ∀ state, bytes <+: state.cursor.rest → Settled cause value bytes deep state (item state)

theorem Settles.pure (value : α) : Settles cause (Pure.pure value) value [] ∅ := by
  intro state _
  have hresult : Settled cause value [] ∅ state
      (.ok value ⟨state.cursor.advance [].length, state.log⟩) := .read rfl
  rwa [List.length_nil, Cursor.advance_zero] at hresult

/-- What is read second lies behind what is read first. -/
theorem Settles.bind {item : Decoder α} {next : α → Decoder β} {first : α} {second : β}
    {bytes bytes' : List UInt8} {deep deep' : Set Nat} (hitem : Settles cause item first bytes deep)
    (hnext : Settles cause (next first) second bytes' deep') :
    Settles cause (item >>= next) second (bytes ++ bytes') (deep ∪ moved bytes.length deep') := by
  intro state hbegins
  obtain ⟨hfirst, hsecond⟩ := append_prefix_iff.mp hbegins
  have hsettled := hitem state hfirst
  generalize hrun : item state = result at hsettled
  cases hsettled with
  | @refused position after hleast hposition =>
    rw [bind_of_error hrun]
    refine .refused ⟨.inl hleast.1, ?_⟩ (hposition.trans (by simp))
    rintro other (hother | ⟨inside, -, rfl⟩)
    · exact hleast.2 hother
    · exact hposition.trans (Nat.le_add_right _ _)
  | @read log hdeep =>
    have hsettled' := hnext ⟨state.cursor.advance bytes.length, log⟩ hsecond
    rw [bind_of_ok hrun, hdeep, Set.empty_union]
    generalize next first ⟨state.cursor.advance bytes.length, log⟩ = result at hsettled'
    cases hsettled' with
    | @read log hdeep' =>
      rw [Cursor.advance_advance, ← List.length_append]
      exact .read (by rw [hdeep', moved_empty])
    | @refused position after hleast hposition =>
      rw [Cursor.advance_absolute, Nat.add_assoc]
      refine .refused (isLeast_moved hleast) ?_
      rw [List.length_append]
      omega

/-- What can be read whatever it is never lies too deep. -/
theorem Settles.of_ok {item : Decoder α} {value : α} {bytes : List UInt8}
    (hitem : ∀ state, bytes <+: state.cursor.rest →
      item state = .ok value ⟨state.cursor.advance bytes.length, state.log⟩) :
    Settles cause item value bytes ∅ := by
  intro state hbegins
  rw [hitem state hbegins]
  exact .read rfl

/-- What is read wherever it is written never lies too deep. -/
theorem Settles.of_reads {item : Decoder α} {layout : α → Language UInt8} {value : α}
    {word : List UInt8} (hitem : ∀ depth, Reads depth item layout) (hword : word ∈ layout value) :
    Settles cause item value word ∅ := by
  intro state hbegins
  obtain ⟨log, hrun⟩ := (hitem _ state value _ rfl).mpr ⟨word, hword, hbegins, rfl⟩
  rw [hrun]
  exact .read rfl

theorem Settles.u2 (value : UInt16) :
    Settles cause Decoder.u2 value (BigEndian.ofUInt16 value) ∅ :=
  .of_ok fun state hbegins ↦ u2_eq_ok_iff.mpr ⟨hbegins, by rw [BigEndian.length_ofUInt16]⟩

theorem Settles.u2_bind {next : UInt16 → Decoder α} {number : UInt16} {value : α}
    {bytes : List UInt8} {deep : Set Nat} (hnext : Settles cause (next number) value bytes deep) :
    Settles cause (Decoder.u2 >>= next) value (BigEndian.ofUInt16 number ++ bytes)
      (moved 2 deep) := by
  have hboth := (Settles.u2 number).bind hnext
  rwa [Set.empty_union, BigEndian.length_ofUInt16] at hboth

/-- What a byte stands before lies one byte further on. -/
theorem Settles.tagged {next : Nat → UInt8 → Decoder α} {byte : UInt8} {value : α}
    {bytes : List UInt8} {deep : Set Nat}
    (hnext : ∀ place, Settles cause (next place byte) value bytes deep) :
    Settles cause (Decoder.offset >>= fun place ↦ Decoder.u1 >>= next place) value
      (byte :: bytes) (moved 1 deep) := by
  intro state hbegins
  have hbyte : Settles cause Decoder.u1 byte [byte] ∅ :=
    .of_ok fun state hbegins ↦ u1_eq_ok_iff.mpr ⟨hbegins, rfl⟩
  have hboth := hbyte.bind (hnext state.cursor.absolute) state hbegins
  rwa [Set.empty_union] at hboth

/-- A value that is made of the one that is read. -/
theorem Settles.map {item : Decoder α} {value : α} {bytes : List UInt8} {deep : Set Nat}
    (hitem : Settles cause item value bytes deep) (make : α → β) :
    Settles cause (do return make (← item)) (make value) bytes deep := by
  have hboth : Settles cause (item >>= fun value ↦ Pure.pure (make value)) (make value)
      (bytes ++ []) (deep ∪ moved bytes.length ∅) := hitem.bind (.pure _)
  rwa [List.append_nil, moved_empty, Set.union_empty] at hboth

section Several

variable {ι : Type} {item : Decoder α}

/-- Several values one behind the other. What each of them is and how it is written is said by an
entry, as one value may be written in several ways. -/
theorem Settles.times_map {make : ι → α} {bytes : ι → List UInt8} {deep : ι → Set Nat}
    {entries : List ι}
    (hitem : ∀ entry ∈ entries, Settles cause item (make entry) (bytes entry) (deep entry)) :
    Settles cause (Decoder.times entries.length item) (entries.map make) (entries.flatMap bytes)
      (positionsIn bytes deep entries) := by
  induction entries with
  | nil => exact .pure []
  | cons entry entries ih =>
    have hfirst := hitem entry List.mem_cons_self
    have hbehind := ih fun other hother ↦ hitem other (List.mem_cons_of_mem entry hother)
    rw [List.length_cons, times_succ, List.flatMap_cons, positionsIn]
    exact hfirst.bind (hbehind.map (make entry :: ·))

theorem Settles.counted_map {make : ι → α} {bytes : ι → List UInt8} {deep : ι → Set Nat}
    {entries : List ι} (hlength : entries.length < 65536)
    (hitem : ∀ entry ∈ entries, Settles cause item (make entry) (bytes entry) (deep entry)) :
    Settles cause (Decoder.counted item) (entries.map make) (withCount bytes entries)
      (moved 2 (positionsIn bytes deep entries)) := by
  obtain ⟨count, hcount⟩ := BigEndian.exists_uint16_iff.mpr hlength
  have htimes := Settles.times_map hitem
  rw [← hcount] at htimes
  rw [withCount, ← hcount]
  exact .u2_bind htimes

/-- Values that are written in one way each. -/
theorem Settles.counted {bytes : α → List UInt8} {deep : α → Set Nat} {values : List α}
    (hlength : values.length < 65536)
    (hitem : ∀ value ∈ values, Settles cause item value (bytes value) (deep value)) :
    Settles cause (Decoder.counted item) values (withCount bytes values)
      (moved 2 (positionsIn bytes deep values)) := by
  have hentries : Settles cause (Decoder.counted item) (values.map id) (withCount bytes values)
    (moved 2 (positionsIn bytes deep values)) := .counted_map hlength hitem
  rwa [List.map_id] at hentries

end Several

/-! ### Codecs with a limit -/

/-- A decoder reads exactly what is written and respects a limit. `positions` are those of the
values that so many others enclose. -/
structure ReadsNested (limit : Nat) (item : Decoder α) (bytes : α → List UInt8)
    (writable : α → Prop) (positions : (enclosing : Nat) → α → Set Nat) : Prop where
  of_within {value : α} {state : State} (hwritable : writable value)
    (hbegins : bytes value <+: state.cursor.rest)
    (hwithin : ∀ enclosing, (positions enclosing value).Nonempty → enclosing ≤ limit) :
    item state = .ok value ⟨state.cursor.advance (bytes value).length, state.log⟩
  of_deep {value : α} {state : State} {enclosing : Nat} (hwritable : writable value)
    (hbegins : bytes value <+: state.cursor.rest) (hdeep : (positions enclosing value).Nonempty)
    (hlimit : limit < enclosing) :
    ∃ first after, IsLeast (positions (limit + 1) value) first ∧
      item state = .error ⟨.nesting limit, state.cursor.absolute + first⟩ after
  of_ok {value : α} {state after : State} (hrun : item state = .ok value after) :
    writable value ∧
      (∀ enclosing, (positions enclosing value).Nonempty → enclosing ≤ limit) ∧
      bytes value <+: state.cursor.rest ∧
      after = ⟨state.cursor.advance (bytes value).length, state.log⟩

theorem Settles.readsNested {limit : Nat} {item : Decoder α} {bytes : α → List UInt8}
    {writable fits : α → Prop} {positions : (enclosing : Nat) → α → Set Nat}
    (hsettles : ∀ value, writable value →
      Settles (.nesting limit) item value (bytes value) (positions (limit + 1) value))
    (hfewer : ∀ value enclosing, (positions enclosing value).Nonempty → limit < enclosing →
      (positions (limit + 1) value).Nonempty)
    (hsilent : Silent item)
    (hreads : ∀ depth, Reads depth item fun value ↦
      provided (fits value) (exactly (bytes value)))
    (hfits : ∀ value, fits value → writable value ∧
      ∀ enclosing, (positions enclosing value).Nonempty → enclosing ≤ limit) :
    ReadsNested limit item bytes writable positions where
  of_within {value state} hwritable hbegins hwithin := by
    have hsettled := hsettles value hwritable state hbegins
    generalize hrun : item state = result at hsettled
    cases hsettled with
    | @read log hdeep =>
      have hlog : log = state.log := hsilent _ _ _ hrun
      rw [hlog]
    | refused hleast hposition =>
      have habsurd := hwithin (limit + 1) ⟨_, hleast.1⟩
      omega
  of_deep {value state enclosing} hwritable hbegins hdeep hlimit := by
    have hsettled := hsettles value hwritable state hbegins
    have hsome := hfewer value enclosing hdeep hlimit
    generalize item state = result at hsettled
    cases hsettled with
    | read hnone => exact absurd hnone hsome.ne_empty
    | refused hleast hposition => exact ⟨_, _, hleast, rfl⟩
  of_ok {value state after} hrun := by
    obtain ⟨_, ⟨hvalue, rfl⟩, hbegins, hafter⟩ := ((hreads _).eq_ok_iff hsilent).mp hrun
    obtain ⟨hwritable, hwithin⟩ := hfits value hvalue
    exact ⟨hwritable, hwithin, hbegins, hafter⟩

end ClassFormat.Decoder
