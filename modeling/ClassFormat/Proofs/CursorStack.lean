import ClassFormat.CursorStack
import ClassFormat.Proofs.Run
import Mathlib.Data.List.Forall2

/-!
# Runs over stacks of cursors

Where a cursor stands and which bytes it has left are two things: a probe for the end of the bytes
loses the byte that it meets and leaves the position as it was. From then on the cursor is ahead of
its position, and so are the cursors that are taken from it. `Probes` counts this for one cursor,
and `Reached` follows a stack of cursors over an input through any operations, with these counts.

`Tracks` is what every operation keeps: a cursor has left the part of the input that begins where
it stands and is ahead by what was counted. From this follows what the next operation does
(`Answers`), which is the main statement, `Reached.answers`.
-/

set_option autoImplicit false
set_option relaxedAutoImplicit false

namespace ClassFormat

/-! ### Reads of a fixed size -/

/-- A read of so many bytes, whatever they are. -/
inductive FixedRead : Type → Type
  | u1 : FixedRead UInt8
  | u2 : FixedRead UInt16
  | u4 : FixedRead UInt32
  | s1 : FixedRead Int8
  | s2 : FixedRead Int16
  | s4 : FixedRead Int32
  | bytes (count : Nat) : FixedRead (List UInt8)
  | skip (count : Nat) : FixedRead Unit

namespace FixedRead

open Decoder

variable {α : Type}

/-- How many bytes are read. -/
def width : {α : Type} → FixedRead α → Nat
  | _, u1 | _, s1 => 1
  | _, u2 | _, s2 => 2
  | _, u4 | _, s4 => 4
  | _, bytes count | _, skip count => count

/-- What is made of the bytes. -/
def value : {α : Type} → FixedRead α → List UInt8 → α
  | _, u1, taken => UInt8.ofNat (BigEndian.toNat taken)
  | _, u2, taken => UInt16.ofNat (BigEndian.toNat taken)
  | _, u4, taken => UInt32.ofNat (BigEndian.toNat taken)
  | _, s1, taken => (UInt8.ofNat (BigEndian.toNat taken)).toInt8
  | _, s2, taken => (UInt16.ofNat (BigEndian.toNat taken)).toInt16
  | _, s4, taken => (UInt32.ofNat (BigEndian.toNat taken)).toInt32
  | _, bytes _, taken => taken
  | _, skip _, _ => ()

/-- The decoder that reads them. -/
def decoder : {α : Type} → FixedRead α → Decoder α
  | _, u1 => Decoder.u1
  | _, u2 => Decoder.u2
  | _, u4 => Decoder.u4
  | _, s1 => Decoder.s1
  | _, s2 => Decoder.s2
  | _, s4 => Decoder.s4
  | _, bytes count => Decoder.take count
  | _, skip count => Decoder.skip count

/-- Every such read takes its bytes at once. -/
theorem decoder_eq (item : FixedRead α) :
    item.decoder = do return item.value (← Decoder.take item.width) := by
  cases item with
  | bytes count => exact (bind_pure (Decoder.take count)).symm
  | skip count => rfl
  | _ => simp [decoder, width, value, Decoder.u1, Decoder.u2, Decoder.u4, Decoder.s1, Decoder.s2,
      Decoder.s4, Decoder.unsigned]

theorem decoder_of_le (item : FixedRead α) {cursor : Cursor} (log : Array Event)
    (hwidth : item.width ≤ cursor.rest.length) :
    item.decoder ⟨cursor, log⟩ =
      .ok (item.value (cursor.rest.take item.width)) ⟨cursor.advance item.width, log⟩ := by
  have htaken := @take_of_le ⟨cursor, log⟩ item.width hwidth
  rw [decoder_eq, bind_of_ok htaken]
  rfl

theorem decoder_of_lt (item : FixedRead α) {cursor : Cursor} (log : Array Event)
    (hclean : cursor.ending = .clean) (hwidth : cursor.rest.length < item.width) :
    item.decoder ⟨cursor, log⟩ =
      .error ⟨.truncated item.width, cursor.absolute⟩ ⟨cursor, log⟩ := by
  have hshort := @take_of_lt ⟨cursor, log⟩ hclean item.width hwidth
  rw [decoder_eq, bind_of_error hshort]

end FixedRead

/-! ### The cursors of a stack -/

namespace CursorStack

variable {α : Type}

/-- All cursors of a stack, the innermost first. -/
def cursors (stack : CursorStack) : List Cursor :=
  stack.inner ++ [stack.outermost]

theorem cursors_eq (stack : CursorStack) : stack.cursors = stack.current :: stack.cursors.tail := by
  obtain ⟨outermost, inner⟩ := stack
  cases inner <;> rfl

theorem cursors_replaceCurrent (stack : CursorStack) (cursor : Cursor) :
    (stack.replaceCurrent cursor).cursors = cursor :: stack.cursors.tail := by
  obtain ⟨outermost, inner⟩ := stack
  cases inner <;> rfl

theorem cursors_of_leave {stack after : CursorStack} (hleave : stack.leave? = some after) :
    after.cursors = stack.cursors.tail := by
  obtain ⟨outermost, inner⟩ := stack
  cases inner <;> cases hleave
  rfl

theorem read_of_ok {stack : CursorStack} {item : Decoder α} {value : α} {after : Decoder.State}
    (hitem : item (.start stack.current) = .ok value after) :
    stack.read item = .ok (value, stack.replaceCurrent after.cursor) := by
  unfold read EStateM.run
  rw [hitem]

theorem read_of_error {stack : CursorStack} {item : Decoder α} {error : DecodeError}
    {after : Decoder.State} (hitem : item (.start stack.current) = .error error after) :
    stack.read item = .error error := by
  unfold read EStateM.run
  rw [hitem]

theorem enter_of_take_ok {stack : CursorStack} {count : Nat} {bytes : List UInt8} {behind : Cursor}
    (htaken : stack.current.take count = .ok (bytes, behind)) :
    ∃ after, stack.enter count = .ok after ∧
      after.cursors = stack.current.window bytes :: behind :: stack.cursors.tail := by
  have henter : stack.enter count =
      .ok { stack.replaceCurrent behind with
        inner := stack.current.window bytes :: (stack.replaceCurrent behind).inner } := by
    unfold enter Cursor.inside
    rw [htaken]
    rfl
  have hcursors := cursors_replaceCurrent stack behind
  exact ⟨_, henter, congrArg (stack.current.window bytes :: ·) hcursors⟩

theorem enter_of_take_error {stack : CursorStack} {count : Nat} {error : DecodeError}
    (hshort : stack.current.take count = .error error) : stack.enter count = .error error := by
  unfold enter Cursor.inside
  rw [hshort]
  rfl

end CursorStack

/-! ### Runs -/

/-- By how many bytes a cursor is ahead of its position: those that its own probes have lost, and
those by which the cursor that it was taken from was ahead at that time. -/
structure Probes where
  own : Nat
  inherited : Nat

namespace Probes

/-- By how many bytes the cursor is ahead in all. -/
def skew (probes : Probes) : Nat :=
  probes.own + probes.inherited

/-- After one more probe. It has lost a byte unless there was none. -/
def answered (probes : Probes) (answer : Bool) : Probes :=
  { probes with own := probes.own + (!answer).toNat }

end Probes

/-- The stacks that operations lead to from a cursor over the input, how many probes have met a
byte on the way, and the probes counted for each cursor of the stack. -/
inductive Reached (input : List UInt8) : (met : Nat) → CursorStack → List Probes → Prop
  | start : Reached input 0 (.ofCursor (.ofBytes input)) [⟨0, 0⟩]
  | read {met : Nat} {stack after : CursorStack} {tally : List Probes} {α : Type}
    {item : FixedRead α} {value : α} (hstack : Reached input met stack tally)
    (hread : stack.read item.decoder = .ok (value, after)) : Reached input met after tally
  | atEnd {met : Nat} {stack after : CursorStack} {probes : Probes} {others : List Probes}
    {answer : Bool} (hstack : Reached input met stack (probes :: others))
    (hread : stack.read Decoder.atEnd = .ok (answer, after)) :
    Reached input (met + (!answer).toNat) after (probes.answered answer :: others)
  | enter {met : Nat} {stack after : CursorStack} {probes : Probes} {others : List Probes}
    {count : Nat} (hstack : Reached input met stack (probes :: others))
    (henter : stack.enter count = .ok after) :
    Reached input met after (⟨0, probes.skew⟩ :: probes :: others)
  | leave {met : Nat} {stack after : CursorStack} {probes : Probes} {others : List Probes}
    (hstack : Reached input met stack (probes :: others)) (hleave : stack.leave? = some after) :
    Reached input met after others

/-! ### What every operation keeps -/

/-- A cursor has left a part of the input that begins so many bytes behind the place where it
stands, and no more than it was made over. -/
structure Tracks (input : List UInt8) (cursor : Cursor) (probes : Probes) : Prop where
  ending : cursor.ending = .clean
  position_le : cursor.position + probes.own ≤ cursor.length
  length_le : cursor.origin + probes.inherited + cursor.length ≤ input.length
  rest : cursor.rest = (input.drop (cursor.absolute + probes.skew)).take
    (cursor.length - (cursor.position + probes.own))

namespace Tracks

variable {input : List UInt8} {cursor : Cursor} {probes : Probes}

theorem ofBytes (input : List UInt8) : Tracks input (.ofBytes input) ⟨0, 0⟩ where
  ending := rfl
  position_le := Nat.zero_le _
  length_le := by simp [Cursor.ofBytes]
  rest := by simp [Cursor.ofBytes, Cursor.absolute, Probes.skew]

theorem rest_length (htracks : Tracks input cursor probes) :
    cursor.rest.length = cursor.length - (cursor.position + probes.own) := by
  have hfits := htracks.length_le
  have hposition := htracks.position_le
  rw [htracks.rest, List.length_take, List.length_drop, Cursor.absolute, Probes.skew]
  omega

/-- The bytes that can still be read are those neither read nor lost. -/
theorem le_rest_length_iff (htracks : Tracks input cursor probes) {count : Nat} :
    count ≤ cursor.rest.length ↔ cursor.position + probes.own + count ≤ cursor.length := by
  have hposition := htracks.position_le
  rw [htracks.rest_length]
  omega

theorem rest_length_lt_iff (htracks : Tracks input cursor probes) {count : Nat} :
    cursor.rest.length < count ↔ cursor.length < cursor.position + probes.own + count := by
  rw [← Nat.not_le, htracks.le_rest_length_iff, Nat.not_le]

/-- What comes next is found in the input. -/
theorem take_rest (htracks : Tracks input cursor probes) (count : Nat) :
    cursor.rest.take count <+: input.drop (cursor.absolute + probes.skew) := by
  rw [htracks.rest]
  exact (List.take_prefix _ _).trans (List.take_prefix _ _)

/-- What is left behind some bytes, from `start` in the input on. -/
theorem drop_rest (htracks : Tracks input cursor probes) {count start gone : Nat}
    (hstart : start = cursor.absolute + probes.skew + count)
    (hgone : gone = cursor.position + probes.own + count) :
    cursor.rest.drop count = (input.drop start).take (cursor.length - gone) := by
  rw [htracks.rest, List.drop_take, List.drop_drop, Nat.sub_sub, hstart, hgone]

theorem advance (htracks : Tracks input cursor probes) {count : Nat}
    (hcount : count ≤ cursor.rest.length) : Tracks input (cursor.advance count) probes where
  ending := htracks.ending
  position_le := by
    have hfits := htracks.le_rest_length_iff.mp hcount
    rw [Cursor.advance_position, Cursor.advance_length]
    omega
  length_le := htracks.length_le
  rest := htracks.drop_rest (by rw [Cursor.advance_absolute]; omega)
    (by rw [Cursor.advance_position]; omega)

/-- A probe that meets a byte leaves the cursor ahead by one byte more. -/
theorem probed (htracks : Tracks input cursor probes) :
    Tracks input { cursor with rest := cursor.rest.tail }
      (probes.answered cursor.rest.isEmpty) := by
  cases hrest : cursor.rest with
  | nil =>
    have hsame : { cursor with rest := [].tail } = cursor := by rw [List.tail_nil, ← hrest]
    rw [hsame]
    exact htracks
  | cons byte rest =>
    have hlength := htracks.rest_length
    rw [hrest, List.length_cons] at hlength
    have hlost : cursor.position + (probes.own + 1) ≤ cursor.length := by omega
    have hbehind : rest =
        (input.drop (cursor.absolute + (probes.own + 1 + probes.inherited))).take
          (cursor.length - (cursor.position + (probes.own + 1))) := by
      rw [← @drop_rest _ _ _ htracks 1 _ _ (by rw [Probes.skew]; omega) (by omega), hrest]
      rfl
    exact ⟨htracks.ending, hlost, htracks.length_le, hbehind⟩

theorem window (htracks : Tracks input cursor probes) {count : Nat}
    (hcount : count ≤ cursor.rest.length) :
    Tracks input (cursor.window (cursor.rest.take count)) ⟨0, probes.skew⟩ where
  ending := rfl
  position_le := Nat.zero_le _
  length_le := by
    have hwhole := htracks.length_le
    have hfits := htracks.le_rest_length_iff.mp hcount
    rw [Cursor.window_length, List.length_take_of_le hcount]
    show cursor.origin + cursor.position + (probes.own + probes.inherited) + count ≤ input.length
    omega
  rest := by
    rw [Cursor.window_rest, Cursor.window_length, List.length_take_of_le hcount,
      Cursor.window_absolute, Cursor.window_position, htracks.rest, List.take_take]
    rw [htracks.rest_length] at hcount
    rw [Nat.min_eq_left hcount]
    simp [Probes.skew]

/-- The innermost cursor of a stack is the first one that probes were counted for. -/
theorem exists_of_cursors {stack : CursorStack} {tally : List Probes}
    (htracks : List.Forall₂ (Tracks input) stack.cursors tally) :
    ∃ probes others, tally = probes :: others ∧ Tracks input stack.current probes ∧
      List.Forall₂ (Tracks input) stack.cursors.tail others := by
  rw [stack.cursors_eq] at htracks
  cases htracks with
  | cons hcurrent hothers => exact ⟨_, _, rfl, hcurrent, hothers⟩

theorem position_le_of_mem {cursors : List Cursor} {tally : List Probes}
    (htracks : List.Forall₂ (Tracks input) cursors tally) :
    ∀ cursor ∈ cursors, cursor.position ≤ cursor.length := by
  induction htracks with
  | nil => exact fun _ hmem ↦ absurd hmem List.not_mem_nil
  | cons hcursor hothers ih =>
    exact List.forall_mem_cons.mpr ⟨Nat.le_of_add_right_le hcursor.position_le, ih⟩

end Tracks

/-! ### Steps -/

section Steps

variable {α : Type} {stack after : CursorStack} {count : Nat}

theorem FixedRead.read_of_le (item : FixedRead α)
    (hwidth : item.width ≤ stack.current.rest.length) :
    ∃ after, stack.read item.decoder =
        .ok (item.value (stack.current.rest.take item.width), after) ∧
      after.cursors = stack.current.advance item.width :: stack.cursors.tail :=
  ⟨_, CursorStack.read_of_ok (item.decoder_of_le #[] hwidth),
    CursorStack.cursors_replaceCurrent _ _⟩

theorem FixedRead.cursors_of_read {item : FixedRead α} {value : α}
    (hclean : stack.current.ending = .clean)
    (hread : stack.read item.decoder = .ok (value, after)) :
    item.width ≤ stack.current.rest.length ∧
      after.cursors = stack.current.advance item.width :: stack.cursors.tail := by
  by_cases hwidth : item.width ≤ stack.current.rest.length
  · obtain ⟨after', hok, hcursors⟩ := item.read_of_le hwidth
    rw [hok] at hread
    cases hread
    exact ⟨hwidth, hcursors⟩
  · have herror := item.decoder_of_lt #[] hclean (Nat.lt_of_not_le hwidth)
    rw [CursorStack.read_of_error herror] at hread
    cases hread

theorem CursorStack.read_atEnd (hclean : stack.current.ending = .clean) :
    ∃ after, stack.read Decoder.atEnd = .ok (stack.current.rest.isEmpty, after) ∧
      after.cursors =
        { stack.current with rest := stack.current.rest.tail } :: stack.cursors.tail :=
  ⟨_, read_of_ok (@Decoder.atEnd_run (.start stack.current) hclean), cursors_replaceCurrent _ _⟩

theorem CursorStack.enter_of_le (hcount : count ≤ stack.current.rest.length) :
    ∃ after, stack.enter count = .ok after ∧
      after.cursors = stack.current.window (stack.current.rest.take count) ::
        stack.current.advance count :: stack.cursors.tail :=
  enter_of_take_ok ((Cursor.take_eq_ok_iff _ _ _ _).mpr
    ⟨List.length_take_of_le hcount, List.take_prefix _ _, rfl⟩)

theorem CursorStack.enter_of_lt (hclean : stack.current.ending = .clean)
    (hcount : stack.current.rest.length < count) :
    stack.enter count = .error ⟨.truncated count, stack.current.absolute⟩ := by
  refine enter_of_take_error ((Cursor.take_eq_error_iff _ _ _).mpr ⟨hcount, ?_⟩)
  rw [Cursor.shortage, hclean]

theorem CursorStack.cursors_of_enter (hclean : stack.current.ending = .clean)
    (henter : stack.enter count = .ok after) :
    count ≤ stack.current.rest.length ∧
      after.cursors = stack.current.window (stack.current.rest.take count) ::
        stack.current.advance count :: stack.cursors.tail := by
  by_cases hcount : count ≤ stack.current.rest.length
  · obtain ⟨after', hok, hcursors⟩ := enter_of_le hcount
    rw [hok] at henter
    cases henter
    exact ⟨hcount, hcursors⟩
  · rw [enter_of_lt hclean (Nat.lt_of_not_le hcount)] at henter
    cases henter

end Steps

/-! ### Whole runs -/

namespace Reached

variable {input : List UInt8} {met : Nat} {stack : CursorStack} {tally : List Probes}

/-- Every cursor of the stack has left the part of the input that its probes say. -/
theorem tracks (hreached : Reached input met stack tally) :
    List.Forall₂ (Tracks input) stack.cursors tally := by
  induction hreached with
  | start => exact .cons (.ofBytes input) .nil
  | read hstack hread ih =>
    obtain ⟨_, _, rfl, hcurrent, hothers⟩ := Tracks.exists_of_cursors ih
    obtain ⟨hwidth, hcursors⟩ := FixedRead.cursors_of_read hcurrent.ending hread
    rw [hcursors]
    exact .cons (hcurrent.advance hwidth) hothers
  | atEnd hstack hread ih =>
    obtain ⟨_, _, ⟨⟩, hcurrent, hothers⟩ := Tracks.exists_of_cursors ih
    obtain ⟨_, hprobe, hcursors⟩ := CursorStack.read_atEnd hcurrent.ending
    rw [hprobe] at hread
    cases hread
    rw [hcursors]
    exact .cons hcurrent.probed hothers
  | enter hstack henter ih =>
    obtain ⟨_, _, ⟨⟩, hcurrent, hothers⟩ := Tracks.exists_of_cursors ih
    obtain ⟨hcount, hcursors⟩ := CursorStack.cursors_of_enter hcurrent.ending henter
    rw [hcursors]
    exact .cons (hcurrent.window hcount) (.cons (hcurrent.advance hcount) hothers)
  | leave hstack hleave ih =>
    obtain ⟨_, _, ⟨⟩, -, hothers⟩ := Tracks.exists_of_cursors ih
    rw [CursorStack.cursors_of_leave hleave]
    exact hothers

/-- No cursor is ahead by more bytes than were met by probes. -/
theorem skew_le (hreached : Reached input met stack tally) :
    ∀ probes ∈ tally, probes.skew ≤ met := by
  induction hreached with
  | start => simp [Probes.skew]
  | read hstack hread ih => exact ih
  | atEnd hstack hread ih =>
    simp only [List.forall_mem_cons, Probes.skew, Probes.answered] at ih ⊢
    exact ⟨by omega, fun probes hmem ↦ Nat.le_add_right_of_le (ih.2 probes hmem)⟩
  | enter hstack henter ih =>
    simp only [List.forall_mem_cons, Probes.skew, Nat.zero_add] at ih ⊢
    exact ⟨ih.1, ih⟩
  | leave hstack hleave ih => exact fun probes hmem ↦ ih probes (List.mem_cons_of_mem _ hmem)

end Reached

/-! ### What comes next -/

/-- What each operation does next to a stack of cursors over the input, given the probes counted for
its innermost cursor. -/
structure Answers (input : List UInt8) (stack : CursorStack) (probes : Probes) : Prop where
  /-- No cursor has read more than it was made over. -/
  remaining {cursor : Cursor} (hcursor : cursor ∈ stack.cursors) :
    cursor.remaining + cursor.position = cursor.length
  read_of_le {α : Type} (item : FixedRead α)
    (hfits : stack.current.position + probes.own + item.width ≤ stack.current.length) :
    ∃ bytes after, bytes.length = item.width ∧
      bytes <+: input.drop (stack.current.absolute + probes.skew) ∧
      stack.read item.decoder = .ok (item.value bytes, after) ∧
      after.cursors = stack.current.advance item.width :: stack.cursors.tail
  read_of_lt {α : Type} (item : FixedRead α)
    (hshort : stack.current.length < stack.current.position + probes.own + item.width) :
    stack.read item.decoder = .error ⟨.truncated item.width, stack.current.absolute⟩ ∧
      ∃ after, item.decoder (.start stack.current) =
          .error ⟨.truncated item.width, stack.current.absolute⟩ after ∧
        after.cursor.position = stack.current.position
  enter_of_le {count : Nat}
    (hfits : stack.current.position + probes.own + count ≤ stack.current.length) :
    ∃ inner after, stack.enter count = .ok after ∧
      after.cursors = inner :: stack.current.advance count :: stack.cursors.tail ∧
      inner.origin = stack.current.absolute ∧ inner.depth = stack.current.depth + 1 ∧
      inner.position = 0 ∧ inner.length = count
  enter_of_lt {count : Nat}
    (hshort : stack.current.length < stack.current.position + probes.own + count) :
    stack.enter count = .error ⟨.truncated count, stack.current.absolute⟩
  atEnd :
    ∃ after, stack.read Decoder.atEnd =
        .ok (decide (stack.current.position + probes.own = stack.current.length), after) ∧
      after.cursors =
        { stack.current with rest := stack.current.rest.tail } :: stack.cursors.tail
  leave {after : CursorStack} (hleave : stack.leave? = some after) :
    after.cursors = stack.cursors.tail

theorem answers_of_tracks {input : List UInt8} {stack : CursorStack} {probes : Probes}
    (hcurrent : Tracks input stack.current probes)
    (hcursors : ∀ cursor ∈ stack.cursors, cursor.position ≤ cursor.length) :
    Answers input stack probes where
  remaining hcursor := Nat.sub_add_cancel (hcursors _ hcursor)
  read_of_le item hfits := by
    have hwidth := hcurrent.le_rest_length_iff.mpr hfits
    obtain ⟨after, hread, hafter⟩ := item.read_of_le hwidth
    exact ⟨_, after, List.length_take_of_le hwidth, hcurrent.take_rest item.width, hread, hafter⟩
  read_of_lt item hshort := by
    have hwidth := hcurrent.rest_length_lt_iff.mpr hshort
    have herror := item.decoder_of_lt #[] hcurrent.ending hwidth
    exact ⟨CursorStack.read_of_error herror, _, herror, rfl⟩
  enter_of_le hfits := by
    have hcount := hcurrent.le_rest_length_iff.mpr hfits
    obtain ⟨after, henter, hafter⟩ := CursorStack.enter_of_le hcount
    exact ⟨_, after, henter, hafter, rfl, rfl, rfl, List.length_take_of_le hcount⟩
  enter_of_lt hshort :=
    CursorStack.enter_of_lt hcurrent.ending (hcurrent.rest_length_lt_iff.mpr hshort)
  atEnd := by
    obtain ⟨after, hread, hafter⟩ := CursorStack.read_atEnd hcurrent.ending
    have hlength := hcurrent.rest_length
    have hposition := hcurrent.position_le
    have hanswer : stack.current.rest.isEmpty =
        decide (stack.current.position + probes.own = stack.current.length) := by
      rw [Bool.eq_iff_iff, List.isEmpty_iff_length_eq_zero, decide_eq_true_iff]
      omega
    rw [hanswer] at hread
    exact ⟨after, hread, hafter⟩
  leave hleave := CursorStack.cursors_of_leave hleave

/-- Wherever operations have led, it is known what the next one does. While no probe has met a byte,
no cursor is ahead of its position. -/
theorem Reached.answers {input : List UInt8} {met : Nat} {stack : CursorStack}
    {tally : List Probes} (hreached : Reached input met stack tally) :
    ∃ probes others, tally = probes :: others ∧ Answers input stack probes ∧
      (met = 0 → probes.skew = 0) := by
  have htracks := hreached.tracks
  have hskew := hreached.skew_le
  have hcursors := Tracks.position_le_of_mem htracks
  obtain ⟨probes, others, rfl, hcurrent, -⟩ := Tracks.exists_of_cursors htracks
  refine ⟨probes, others, rfl, answers_of_tracks hcurrent hcursors, fun hmet ↦ ?_⟩
  have hprobes := hskew probes List.mem_cons_self
  omega

/-- Two cursors over six bytes. One byte was read through the outer one and one was lost to a probe.
Then the inner one was taken, and the same happened to it. -/
def CursorStack.probedTwice : CursorStack where
  outermost := ⟨[6], 4, 0, 0, 6, .clean⟩
  inner := [⟨[5], 1, 1, 1, 3, .clean⟩]

/-- Through the inner cursor, which stands at the third byte, the fifth one is read. -/
theorem Reached.probedTwice_answers :
    Reached [1, 2, 3, 4, 5, 6] 2 .probedTwice [⟨1, 1⟩, ⟨1, 0⟩] ∧
      Answers [1, 2, 3, 4, 5, 6] .probedTwice ⟨1, 1⟩ ∧
      ∃ after, CursorStack.probedTwice.read Decoder.u1 = .ok (5, after) := by
  have hreached : Reached [1, 2, 3, 4, 5, 6] 2 .probedTwice [⟨1, 1⟩, ⟨1, 0⟩] := by
    have hstart := @Reached.start [1, 2, 3, 4, 5, 6]
    have hfirst := @Reached.read _ _ _ _ _ _ FixedRead.u1 1 hstart rfl
    have hlost := @Reached.atEnd _ _ _ _ ⟨0, 0⟩ [] false hfirst rfl
    have hinner := @Reached.enter _ _ _ _ _ _ 3 hlost rfl
    have hthird := @Reached.read _ _ _ _ _ _ FixedRead.u1 3 hinner rfl
    exact @Reached.atEnd _ _ _ _ ⟨0, 1⟩ [⟨1, 0⟩] false hthird rfl
  obtain ⟨probes, others, htally, hanswers, -⟩ := hreached.answers
  cases htally
  obtain ⟨bytes, after, hlength, hbytes, hread, -⟩ := hanswers.read_of_le .u1 (by decide)
  refine ⟨hreached, hanswers, after, ?_⟩
  have hbyte : bytes = [5] := by
    rw [List.prefix_iff_eq_take, hlength] at hbytes
    exact hbytes
  rw [hbyte] at hread
  exact hread

end ClassFormat
