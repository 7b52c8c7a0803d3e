import ClassFormat.Proofs.Simulation.Decoders

/-!
# More bytes behind the input

What further bytes change. `Simulation.continuation` compares a cursor with the one over the same
bytes and a tail. A decoder that keeps together with itself answers over the longer input as over
the shorter one, unless the shorter one ended too early, and then the failing read shows where
(`Decoder.run_continued`).

The main statement is `ClassFile.answer_append_and_take`. An answer of the decoder other than that
the input is truncated does not depend on what follows. A class file that is cut anywhere is
truncated, with a read that crosses the cut. So no class file begins another one.
-/

set_option autoImplicit false
set_option relaxedAutoImplicit false

namespace ClassFormat

/-- The cursor over the same bytes and a tail behind them. -/
def Cursor.continued (cursor : Cursor) (tail : List UInt8) : Cursor :=
  { cursor with rest := cursor.rest ++ tail, length := cursor.length + tail.length }

@[simp] theorem Cursor.continued_position (cursor : Cursor) (tail : List UInt8) :
    (cursor.continued tail).position = cursor.position := rfl

@[simp] theorem Cursor.continued_length (cursor : Cursor) (tail : List UInt8) :
    (cursor.continued tail).length = cursor.length + tail.length := rfl

@[simp] theorem Cursor.continued_absolute (cursor : Cursor) (tail : List UInt8) :
    (cursor.continued tail).absolute = cursor.absolute := rfl

/-- The cursors behind the same number of bytes of a starting one, without and with a tail. -/
def Cursor.Continued (start : Cursor) (tail : List UInt8) (left right : Cursor) : Prop :=
  start.ending = .clean ∧
    ∃ count ≤ start.rest.length, left = start.advance count ∧ right = left.continued tail

/-- The input ended in the midst of a read that ends within the tail. -/
def DecodeError.FallsShort (start : Cursor) (tail : List UInt8) (error : DecodeError) : Prop :=
  ∃ requested, error.cause = .truncated requested ∧
    start.absolute ≤ error.offset ∧ error.offset ≤ start.stop ∧
    start.stop < error.offset + requested ∧ error.offset + requested ≤ start.stop + tail.length

/-- Reads with and without a tail keep together, but for a read that ends within the tail. -/
theorem Cursor.takeTogether_continued {start : Cursor} {tail : List UInt8} {left right : Cursor}
    (asked : Nat) (hcontinued : start.Continued tail left right) :
    TakeTogether (start.Continued tail) (fun first second ↦ second = first)
      (DecodeError.FallsShort start tail) (left.take asked) (right.take asked) := by
  obtain ⟨hclean, count, hcount, rfl, rfl⟩ := hcontinued
  have hrest : (start.advance count).rest.length = start.rest.length - count := by simp
  by_cases hasked : asked ≤ start.rest.length - count
  · have htaken : (start.advance count).take asked =
        .ok ((start.advance count).rest.take asked, start.advance (count + asked)) :=
      (take_eq_ok_iff _ _ _ _).mpr ⟨by simp; omega, List.take_prefix _ _, by simp⟩
    have htaken' : ((start.advance count).continued tail).take asked =
        .ok ((start.advance count).rest.take asked,
          (start.advance (count + asked)).continued tail) := by
      refine (take_eq_ok_iff _ _ _ _).mpr ⟨by simp; omega, ?_, ?_⟩
      · exact (List.take_prefix _ _).trans (List.prefix_append _ _)
      · rw [← advance_advance]
        simp only [advance, continued, mk.injEq, and_true]
        rw [List.drop_append_of_le_length (by simp; omega)]
    rw [htaken, htaken']
    exact .ok ⟨hclean, count + asked, by omega, rfl, rfl⟩
  · have hshort : (start.advance count).take asked =
        .error ⟨.truncated asked, (start.advance count).absolute⟩ :=
      (take_eq_error_iff _ _ _).mpr ⟨by rw [hrest]; omega, by simp [shortage, hclean]⟩
    rw [hshort]
    by_cases htail : asked ≤ start.rest.length - count + tail.length
    · refine .gap ⟨asked, rfl, ?_⟩
      simp only [advance_absolute, stop]
      omega
    · have hshort' : ((start.advance count).continued tail).take asked =
          .error ⟨.truncated asked, (start.advance count).absolute⟩ := by
        refine (take_eq_error_iff _ _ _).mpr ⟨?_, ?_⟩
        · simp only [continued, List.length_append, hrest]
          omega
        · simp [shortage, continued, hclean, absolute]
      rw [hshort']
      exact .error rfl

/-- The bytes behind a starting cursor, and the same bytes with a tail. -/
def Simulation.continuation (start : Cursor) (tail : List UInt8) : Simulation where
  cursors := start.Continued tail
  shift := 0
  lead := 0
  errors first second := second = first
  gap := DecodeError.FallsShort start tail
  logs _ _ := True
  absolute_eq := fun ⟨_, _, _, _, hright⟩ ↦ hright ▸ rfl
  position_eq := fun ⟨_, _, _, _, hright⟩ ↦ hright ▸ rfl
  depth_eq := fun ⟨_, _, _, _, hright⟩ ↦ hright ▸ rfl
  errors_moved _ := rfl
  logs_push _ _ := trivial
  take_together asked hcontinued := Cursor.takeTogether_continued asked hcontinued

@[simp] theorem Cursor.continued_ofBytes (bytes tail : List UInt8) :
    (ofBytes bytes).continued tail = ofBytes (bytes ++ tail) := by
  simp [ofBytes, continued]

@[simp] theorem Cursor.continued_window (cursor : Cursor) (bytes tail : List UInt8) :
    (cursor.window bytes).continued tail = cursor.window (bytes ++ tail) := by
  simp [ofBytes, window, continued]

namespace Decoder

variable {α : Type} {item : Decoder α}

/-- What a decoder answers over bytes, and how many of them it reads. -/
def answer (item : Decoder α) (bytes : List UInt8) : Except DecodeError α × Nat :=
  match item.run (.start (.ofBytes bytes)) with
  | .ok value after => (.ok value, after.cursor.position)
  | .error error after => (.error error, after.cursor.position)

/-- A decoder gives a value if its answer is one. -/
theorem exists_ok_of_answer {bytes : List UInt8} (hvalue : (answer item bytes).1.isOk) :
    ∃ value after, item (.start (.ofBytes bytes)) = .ok value after := by
  unfold answer EStateM.run at hvalue
  cases hrun : item (.start (.ofBytes bytes)) with
  | ok value after => exact ⟨value, after, rfl⟩
  | error error after =>
    rw [hrun] at hvalue
    cases hvalue

/-- A decoder fails with an error if its answer is that error. -/
theorem exists_error_of_answer {bytes : List UInt8} {error : DecodeError}
    (herror : (match (answer item bytes).1 with
      | .error failure => some failure
      | .ok _ => none) = some error) :
    ∃ after, item (.start (.ofBytes bytes)) = .error error after := by
  unfold answer EStateM.run at herror
  cases hrun : item (.start (.ofBytes bytes)) with
  | error failure after =>
    rw [hrun] at herror
    cases herror
    exact ⟨after, rfl⟩
  | ok value after =>
    rw [hrun] at herror
    cases herror

/-- A decoder that keeps together with itself does so when a tail is put behind its input. -/
theorem run_continued (hitem : ∀ sim : Simulation, sim.Relates item item) (cursor : Cursor)
    (hclean : cursor.ending = .clean) (tail : List UInt8) (log log' : Array Event) :
    (Simulation.continuation cursor tail).Results (item ⟨cursor, log⟩)
      (item ⟨cursor.continued tail, log'⟩) :=
  hitem _ _ _ ⟨⟨hclean, 0, Nat.zero_le _, by simp, rfl⟩, trivial⟩

/-- A decoder that gives a value has read some of the bytes and nothing else happened to the
cursor. -/
theorem cursor_eq_advance (hitem : ∀ sim : Simulation, sim.Relates item item)
    {state after : State} {value : α} (hclean : state.cursor.ending = .clean)
    (hrun : item state = .ok value after) :
    ∃ count ≤ state.cursor.rest.length, after.cursor = state.cursor.advance count := by
  have hresults := run_continued hitem state.cursor hclean [] state.log state.log
  rw [hrun] at hresults
  generalize item _ = right at hresults
  cases hresults with
  | ok hstates =>
    obtain ⟨-, count, hcount, hcursor, -⟩ := hstates.cursors
    exact ⟨count, hcount, hcursor⟩

/-- What happened before a run does not change what it gives. -/
theorem run_of_log (hitem : ∀ sim : Simulation, sim.Relates item item) {state after : State}
    {value : α} (hclean : state.cursor.ending = .clean) (hrun : item state = .ok value after)
    (log : Array Event) : ∃ log', item ⟨state.cursor, log⟩ = .ok value ⟨after.cursor, log'⟩ := by
  have hresults := run_continued hitem state.cursor hclean [] state.log log
  have hcontinued : ∀ cursor : Cursor, cursor.continued [] = cursor := fun cursor ↦ by
    simp [Cursor.continued]
  rw [hrun, hcontinued] at hresults
  revert hresults
  generalize item ⟨state.cursor, log⟩ = other
  intro hresults
  cases hresults with
  | @ok _ _ right hstates =>
    obtain ⟨-, count, -, -, hright⟩ := hstates.cursors
    rw [hcontinued] at hright
    exact ⟨right.log, by rw [← hright]⟩

/-- Over a longer input the answer is the same and lies within the shorter one, unless the shorter
one is truncated, by a read that crosses its end. -/
theorem answer_append (hitem : ∀ sim : Simulation, sim.Relates item item)
    (bytes tail : List UInt8) :
    (answer item (bytes ++ tail) = answer item bytes ∧ (answer item bytes).2 ≤ bytes.length) ∨
      ∃ requested offset position,
        answer item bytes = (.error ⟨.truncated requested, offset⟩, position) ∧
          offset ≤ bytes.length ∧ bytes.length < offset + requested := by
  have hresults := run_continued hitem (.ofBytes bytes) rfl tail #[] #[]
  rw [Cursor.continued_ofBytes] at hresults
  have hstop : (Cursor.ofBytes bytes).stop = bytes.length := by
    simp [Cursor.stop, Cursor.ofBytes, Cursor.absolute]
  unfold answer EStateM.run State.start
  generalize item ⟨.ofBytes bytes, #[]⟩ = left at hresults
  generalize item ⟨.ofBytes (bytes ++ tail), #[]⟩ = right at hresults
  cases hresults with
  | ok hstates =>
    obtain ⟨-, count, hcount, hleft, hright⟩ := hstates.cursors
    refine .inl ⟨?_, ?_⟩
    · simp only [hright, Cursor.continued]
    · simpa [hleft, Cursor.ofBytes] using hcount
  | error herrors hstates =>
    obtain ⟨-, count, hcount, hleft, hright⟩ := hstates.cursors
    refine .inl ⟨?_, ?_⟩
    · rw [herrors]
      simp only [hright, Cursor.continued]
    · simpa [hleft, Cursor.ofBytes] using hcount
  | @gap error after _ hgap =>
    obtain ⟨requested, hcause, -, hoffset, hcross, -⟩ := hgap
    obtain ⟨cause, offset⟩ := error
    cases hcause
    simp only [hstop] at hoffset hcross
    exact .inr ⟨requested, offset, _, rfl, hoffset, hcross⟩

/-- A decoder that reads some of the bytes is short of bytes when they are cut anywhere before, and
the read that fails crosses the cut. -/
theorem answer_take (hitem : ∀ sim : Simulation, sim.Relates item item)
    {bytes : List UInt8} {value : α} {count cut : Nat}
    (hanswer : answer item bytes = (.ok value, count)) (hcut : cut < count) :
    ∃ requested offset position,
      answer item (bytes.take cut) = (.error ⟨.truncated requested, offset⟩, position) ∧
        offset ≤ cut ∧ cut < offset + requested := by
  have hcount : count ≤ bytes.length := by
    rcases answer_append hitem bytes [] with ⟨-, hcount⟩ | ⟨_, _, _, hfailed, -⟩
    · rwa [hanswer] at hcount
    · rw [hanswer] at hfailed
      cases hfailed
  have hlength : (bytes.take cut).length = cut := by simp; omega
  rcases answer_append hitem (bytes.take cut) (bytes.drop cut) with
    ⟨hsame, hwithin⟩ | ⟨requested, offset, position, hfailed, hoffset, hcross⟩
  · rw [List.take_append_drop, hanswer] at hsame
    rw [← hsame, hlength] at hwithin
    exact absurd hwithin (by omega)
  · rw [hlength] at hoffset hcross
    exact ⟨requested, offset, position, hfailed, hoffset, hcross⟩

end Decoder

namespace ClassFile

open Decoder

/-- Bytes are a class file if reading one takes all of them. Bytes behind it are trailing. -/
theorem ofBytes_fst (bytes : List UInt8) :
    (ofBytes bytes).1 =
      match answer ClassFile.decode bytes with
      | (.ok file, count) =>
        if count = bytes.length then .ok file
        else .error ⟨.trailing (bytes.length - count), count⟩
      | (.error error, _) => .error error := by
  unfold ofBytes decodeWhole answer EStateM.run
  cases hrun : ClassFile.decode (.start (.ofBytes bytes)) with
  | error error after => rw [bind_of_error hrun]
  | ok file after =>
    obtain ⟨count, hcount, hcursor⟩ := cursor_eq_advance ClassFile.decode_relates rfl hrun
    have hclean : after.cursor.ending = .clean := by
      rw [hcursor]
      rfl
    have hposition : after.cursor.position = count := by
      simp [hcursor, State.start, Cursor.ofBytes]
    have horigin : after.cursor.origin = 0 := by
      rw [hcursor]
      rfl
    have hremaining : after.cursor.remaining = bytes.length - count := by
      simp [Cursor.remaining, hcursor, State.start, Cursor.ofBytes]
    have hend : after.cursor.rest.isEmpty = decide (count = bytes.length) := by
      have hcount' : count ≤ bytes.length := hcount
      rw [Bool.eq_iff_iff, List.isEmpty_iff_length_eq_zero, decide_eq_true_iff, hcursor]
      simp only [State.start, Cursor.ofBytes, Cursor.advance_rest, List.length_drop]
      omega
    rw [bind_of_ok hrun, bind_of_ok (remaining_run _), bind_of_ok (atEnd_run hclean)]
    by_cases hall : count = bytes.length
    · simp [hend, hall, hposition]
    · simp [hend, hall, hposition, hremaining, horigin, Cursor.absolute]

/-- A class file is accepted exactly if it is read to the end of the bytes. -/
theorem ofBytes_fst_eq_ok_iff {bytes : List UInt8} {file : ClassFile} :
    (ofBytes bytes).1 = .ok file ↔
      answer ClassFile.decode bytes = (.ok file, bytes.length) := by
  rw [ofBytes_fst]
  constructor
  · intro haccepted
    split at haccepted
    · rename_i other count hanswer
      split_ifs at haccepted with hcount
      cases haccepted
      rw [hanswer, hcount]
    · cases haccepted
  · intro hanswer
    simp [hanswer]

/-- Bytes behind a class file are refused, with their number and the place where they begin. -/
theorem ofBytes_append {bytes tail : List UInt8} {file : ClassFile}
    (haccepted : (ofBytes bytes).1 = .ok file) (htail : tail ≠ []) :
    (ofBytes (bytes ++ tail)).1 = .error ⟨.trailing tail.length, bytes.length⟩ := by
  have hanswer := ofBytes_fst_eq_ok_iff.mp haccepted
  rcases answer_append ClassFile.decode_relates bytes tail with
    ⟨hsame, -⟩ | ⟨_, _, _, hfailed, -⟩
  · have hlonger : bytes.length ≠ (bytes ++ tail).length := by simpa using htail
    rw [ofBytes_fst, hsame, hanswer]
    simp [htail]
  · rw [hanswer] at hfailed
    cases hfailed

/-- A strict beginning of a class file is truncated. -/
theorem ofBytes_take {bytes : List UInt8} {file : ClassFile} {cut : Nat}
    (haccepted : (ofBytes bytes).1 = .ok file) (hcut : cut < bytes.length) :
    ∃ requested offset, (ofBytes (bytes.take cut)).1 = .error ⟨.truncated requested, offset⟩ ∧
      offset ≤ cut ∧ cut < offset + requested := by
  obtain ⟨requested, offset, position, hfailed, hcross⟩ :=
    answer_take ClassFile.decode_relates (ofBytes_fst_eq_ok_iff.mp haccepted) hcut
  refine ⟨requested, offset, ?_, hcross⟩
  rw [ofBytes_fst, hfailed]

/-- What is behind an input changes nothing but that the input ends. An answer other than that the
input is truncated stays the same, with the number of bytes read, whatever follows; a class file
that is cut before its end is truncated, by a read that crosses the cut. So every strict beginning
of an accepted class file is truncated, everything behind one is trailing, and no accepted class
file begins another. -/
theorem answer_append_and_take (bytes tail : List UInt8) :
    ((∀ requested offset position,
        answer ClassFile.decode bytes ≠ (.error ⟨.truncated requested, offset⟩, position)) →
      answer ClassFile.decode (bytes ++ tail) = answer ClassFile.decode bytes) ∧
    (∀ file count cut, answer ClassFile.decode bytes = (.ok file, count) → cut < count →
      ∃ requested offset position,
        answer ClassFile.decode (bytes.take cut) =
          (.error ⟨.truncated requested, offset⟩, position) ∧
        offset ≤ cut ∧ cut < offset + requested) ∧
    (∀ file, (ofBytes bytes).1 = .ok file →
      (∀ cut < bytes.length, ∃ requested offset,
        (ofBytes (bytes.take cut)).1 = .error ⟨.truncated requested, offset⟩ ∧
          offset ≤ cut ∧ cut < offset + requested) ∧
      (tail ≠ [] →
        (ofBytes (bytes ++ tail)).1 = .error ⟨.trailing tail.length, bytes.length⟩) ∧
      ∀ file', (ofBytes (bytes ++ tail)).1 = .ok file' → tail = []) := by
  refine ⟨fun hother ↦ ?_, fun file count cut ↦ answer_take ClassFile.decode_relates,
    fun file haccepted ↦ ⟨fun cut ↦ ofBytes_take haccepted, ofBytes_append haccepted,
      fun file' haccepted' ↦ ?_⟩⟩
  · rcases answer_append ClassFile.decode_relates bytes tail with
      ⟨hsame, -⟩ | ⟨requested, offset, position, hfailed, -⟩
    · exact hsame
    · exact absurd hfailed (hother requested offset position)
  · by_cases htail : tail = []
    · exact htail
    · rw [ofBytes_append haccepted htail] at haccepted'
      cases haccepted'

/-- The bytes of a class with one method, which returns at once. -/
def oneMethod : List UInt8 :=
  [0xca, 0xfe, 0xba, 0xbe, 0, 0, 0, 52,
    0, 2, 1, 0, 4, 67, 111, 100, 101,
    0, 33, 0, 0, 0, 0, 0, 0, 0, 0,
    0, 1, 0, 9, 0, 0, 0, 0, 0, 1,
    0, 1, 0, 0, 0, 13, 0, 1, 0, 1, 0, 0, 0, 1, 0xb1, 0, 0, 0, 0,
    0, 0]

/-- Cut within its only instruction list that class is truncated, and with a byte behind it that
byte is trailing. -/
theorem oneMethod_cut_and_continued :
    (∃ file, (ofBytes oneMethod).1 = .ok file) ∧
      answer ClassFile.decode (oneMethod ++ [7]) = answer ClassFile.decode oneMethod ∧
      (∃ requested offset,
        (ofBytes (oneMethod.take 51)).1 = .error ⟨.truncated requested, offset⟩ ∧
          offset ≤ 51 ∧ 51 < offset + requested) ∧
      (ofBytes (oneMethod ++ [7])).1 = .error ⟨.trailing 1, 58⟩ := by
  obtain ⟨file, hfile⟩ : ∃ file, (ofBytes oneMethod).1 = .ok file := by
    have haccepted : (ofBytes oneMethod).1.isOk := by decide +kernel
    cases hanswer : (ofBytes oneMethod).1 with
    | ok file => exact ⟨file, rfl⟩
    | error error =>
      rw [hanswer] at haccepted
      cases haccepted
  obtain ⟨hsame, -, hwhole⟩ := answer_append_and_take oneMethod [7]
  obtain ⟨hcut, htrailing, -⟩ := hwhole file hfile
  refine ⟨⟨file, hfile⟩, hsame fun _ _ _ hfailed ↦ ?_, hcut 51 (by decide), htrailing (by simp)⟩
  rw [ofBytes_fst_eq_ok_iff.mp hfile] at hfailed
  cases hfailed

end ClassFile

end ClassFormat
