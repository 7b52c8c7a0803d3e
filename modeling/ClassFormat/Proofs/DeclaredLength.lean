import ClassFormat.Proofs.AttributeFrame
import ClassFormat.Proofs.Extension

/-!
# The declared length of an attribute

An attribute is accepted with one declared length only. How many bytes the decoder of a body reads
does not depend on how many it is given (`Decoder.run_continued`), so a body that is given more of
them leaves the rest, and one that is given fewer asks for bytes behind its end.

The main statement is `Attribute.decode_declared`: an accepted attribute takes its header and its
declared length, and with any other length in the header it is refused for that length, under its
own name and with the number of bytes that it would have needed.
-/

set_option autoImplicit false
set_option relaxedAutoImplicit false

namespace ClassFormat.Attribute

open Decoder

/-! ### Other lengths -/

section OtherLengths

variable {nested : Decoder Attribute} {kind : Kind} {item : Attribute} {inner : State}
  {cursor : Cursor} {log : Array Event} {bytes tail : List UInt8} {state : State}

/-- A body that is given more bytes reads as many as before. -/
theorem decodeBody_of_longer (hnested : ∀ sim : Simulation, sim.Relates nested nested)
    (hbody : decodeBody nested kind ⟨cursor.window bytes, log⟩ = .ok item inner)
    (tail : List UInt8) (log' : Array Event) :
    ∃ log'', decodeBody nested kind ⟨cursor.window (bytes ++ tail), log'⟩ =
      .ok item ⟨inner.cursor.continued tail, log''⟩ := by
  have hresults := run_continued (fun sim ↦ decodeBody_relates sim (hnested sim) kind)
    (cursor.window bytes) rfl tail log log'
  rw [hbody, Cursor.continued_window] at hresults
  revert hresults
  generalize decodeBody nested kind ⟨cursor.window (bytes ++ tail), log'⟩ = longer
  intro hresults
  cases hresults with
  | @ok _ _ right hstates =>
    obtain ⟨-, count, -, -, hright⟩ := hstates.cursors
    obtain ⟨rightCursor, rightLog⟩ := right
    cases hright
    exact ⟨rightLog, rfl⟩

/-- A body that is given too few bytes asks for some of those that it would need. -/
theorem decodeBody_of_shorter (hnested : ∀ sim : Simulation, sim.Relates nested nested)
    (hbody : decodeBody nested kind ⟨cursor.window (bytes ++ tail), log⟩ = .ok item inner)
    (hposition : bytes.length < inner.cursor.position) (log' : Array Event) :
    ∃ requested offset inner', decodeBody nested kind ⟨cursor.window bytes, log'⟩ =
        .error ⟨.truncated requested, offset⟩ inner' ∧
      cursor.absolute ≤ offset ∧ offset ≤ cursor.absolute + bytes.length ∧
      cursor.absolute + bytes.length < offset + requested ∧
      offset + requested ≤ cursor.absolute + bytes.length + tail.length := by
  have hresults := run_continued (fun sim ↦ decodeBody_relates sim (hnested sim) kind)
    (cursor.window bytes) rfl tail log' log
  rw [Cursor.continued_window, hbody] at hresults
  revert hresults
  generalize decodeBody nested kind ⟨cursor.window bytes, log'⟩ = shorter
  intro hresults
  cases hresults with
  | ok hstates =>
    obtain ⟨-, count, hcount, hleft, hright⟩ := hstates.cursors
    simp [hright, hleft] at hposition hcount
    omega
  | @gap error left _ hgap =>
    obtain ⟨requested, hcause, hbounds⟩ := hgap
    obtain ⟨cause, offset⟩ := error
    cases hcause
    simp only [Cursor.stop, Cursor.window_absolute, Cursor.window_rest] at hbounds
    exact ⟨requested, offset, left, rfl, hbounds⟩

/-- A body that is declared too long leaves bytes behind it. -/
theorem decodeFramed_of_longer (hnested : ∀ sim : Simulation, sim.Relates nested nested)
    (hbody : decodeBody nested kind ⟨state.cursor.window bytes, log⟩ = .ok item inner)
    (hinner : inner.cursor = (state.cursor.window bytes).advance bytes.length)
    (htail : tail ≠ []) {declared : UInt32}
    (hdeclared : (bytes ++ tail).length = declared.toNat)
    (hbegins : bytes ++ tail <+: state.cursor.rest) (start : Nat) :
    ∃ after, decodeFramed nested start kind.nameBytes declared state =
      .error ⟨.attributeLength kind.name declared bytes.length,
        state.cursor.absolute + bytes.length⟩ after := by
  obtain ⟨log', hlonger⟩ := decodeBody_of_longer hnested hbody tail
    (state.log.push (.attributeBody kind.name declared start))
  have hleftover : (inner.cursor.continued tail).remaining ≠ 0 := by
    simpa [Cursor.remaining, hinner] using htail
  refine ⟨⟨state.cursor.advance declared.toNat, log'⟩, ?_⟩
  rw [decodeFramed_nameBytes hdeclared hbegins, hlonger]
  dsimp only
  rw [if_neg hleftover]
  simp [hinner]

/-- A body that is declared too short is found to need more bytes. -/
theorem decodeFramed_of_shorter (hnested : ∀ sim : Simulation, sim.Relates nested nested)
    (hbody : decodeBody nested kind ⟨state.cursor.window (bytes ++ tail), log⟩ = .ok item inner)
    (hposition : bytes.length < inner.cursor.position) {declared : UInt32}
    (hdeclared : bytes.length = declared.toNat) (hbegins : bytes <+: state.cursor.rest)
    (start : Nat) :
    ∃ consumed offset after, decodeFramed nested start kind.nameBytes declared state =
        .error ⟨.attributeLength kind.name declared consumed, offset⟩ after ∧
      bytes.length < consumed ∧ consumed ≤ bytes.length + tail.length ∧
      state.cursor.absolute ≤ offset ∧ offset ≤ state.cursor.absolute + bytes.length := by
  obtain ⟨requested, offset, inner', hshorter, hbounds⟩ := decodeBody_of_shorter hnested hbody
    hposition (state.log.push (.attributeBody kind.name declared start))
  refine ⟨offset - state.cursor.absolute + requested, offset,
    ⟨state.cursor.advance declared.toNat, inner'.log⟩, ?_, by omega⟩
  rw [decodeFramed_nameBytes hdeclared hbegins, hshorter]
  rfl

end OtherLengths

/-- How many bytes a body is found to need, and where, if it begins at `place`, needs `length` bytes
and is declared to have another number of them. -/
structure Misdeclared (place : Nat) (length declared : UInt32) (consumed offset : Nat) : Prop where
  longer : length < declared → consumed = length.toNat ∧ offset = place + length.toNat
  shorter : declared < length → declared.toNat < consumed ∧ consumed ≤ length.toNat ∧
    place ≤ offset ∧ offset ≤ place + declared.toNat

/-- A body is accepted with one length only. -/
theorem decodeFramed_declared {nested : Decoder Attribute}
    (hnested : ∀ sim : Simulation, sim.Relates nested nested) {start : Nat} {name : List UInt8}
    {length : UInt32} {state after : State} {item : Attribute}
    (haccepted : decodeFramed nested start name length state = .ok item after) :
    after.cursor = state.cursor.advance length.toNat ∧
      ∀ declared, declared ≠ length → declared.toNat ≤ state.cursor.rest.length →
        ∃ consumed offset after', decodeFramed nested start name declared state =
            .error ⟨.attributeLength item.name declared consumed, offset⟩ after' ∧
          Misdeclared state.cursor.absolute length declared consumed offset := by
  obtain ⟨kind, bytes, inner, rfl, hbytes, ⟨behind, hrest⟩, hbody, hleft, rfl⟩ :=
    decodeFramed_eq_ok haccepted
  have hkind : item.kind = kind := decodeBody_yields _ kind _ _ _ hbody
  have hname : item.name = kind.name := by rw [name, hkind]
  have hinner : inner.cursor = (state.cursor.window bytes).advance length.toNat := by
    obtain ⟨count, hcount, hcursor⟩ := cursor_eq_advance
      (fun sim ↦ decodeBody_relates sim (hnested sim) kind) rfl hbody
    rw [hcursor] at hleft ⊢
    simp [Cursor.remaining] at hleft hcount
    rw [show count = length.toNat by omega]
  refine ⟨rfl, fun declared hother havailable ↦ ?_⟩
  rw [← hrest, List.length_append] at havailable
  rw [hname]
  rcases Nat.lt_or_gt_of_ne (mt UInt32.toNat_inj.mp hother) with hshorter | hlonger
  · have hlength : (bytes.take declared.toNat).length = declared.toNat := by
      rw [List.length_take]
      omega
    have hbegins : bytes.take declared.toNat <+: state.cursor.rest :=
      (List.take_prefix _ _).trans ⟨behind, hrest⟩
    have hposition : (bytes.take declared.toNat).length < inner.cursor.position := by
      simp [hinner]
      omega
    rw [← List.take_append_drop declared.toNat bytes] at hbody
    obtain ⟨consumed, offset, after', hrefused, hbounds⟩ :=
      decodeFramed_of_shorter hnested hbody hposition hlength hbegins start
    rw [hlength, List.length_drop] at hbounds
    refine ⟨consumed, offset, after', hrefused, ?_, fun _ ↦ by omega⟩
    exact fun hlonger ↦ absurd (UInt32.lt_iff_toNat_lt.mp hlonger) (by omega)
  · have htail : (behind.take (declared.toNat - length.toNat)).length =
        declared.toNat - length.toNat := by
      rw [List.length_take]
      omega
    have hlength : (bytes ++ behind.take (declared.toNat - length.toNat)).length =
        declared.toNat := by
      rw [List.length_append, htail]
      omega
    have hbegins : bytes ++ behind.take (declared.toNat - length.toNat) <+: state.cursor.rest := by
      rw [← hrest]
      exact (List.prefix_append_right_inj _).mpr (List.take_prefix _ _)
    obtain ⟨after', hrefused⟩ := decodeFramed_of_longer hnested hbody (by rw [hinner, hbytes])
      (List.ne_nil_of_length_pos (by omega)) hlength hbegins start
    rw [hbytes] at hrefused
    refine ⟨_, _, after', hrefused, fun _ ↦ ⟨rfl, rfl⟩, ?_⟩
    exact fun hshorter ↦ absurd (UInt32.lt_iff_toNat_lt.mp hshorter) (by omega)

/-- The declared length of an attribute is the one that its body needs. An accepted attribute takes
its header and its declared length. With another length in the header, of which there are enough
bytes, it is refused for its length and under its own name: a longer body is found to need the
former length, a shorter one to need more than it has and no more than the former length. -/
theorem decode_declared {pool : ConstantPool} {state after : State} {item : Attribute}
    (haccepted : decode pool state = .ok item after) :
    ∃ nameIndex length body, state.cursor.rest = header nameIndex length ++ body ∧
      after.cursor = state.cursor.advance (6 + length.toNat) ∧
      ∀ declared, declared ≠ length → declared.toNat ≤ body.length →
        ∃ consumed offset after',
          decode pool ⟨{ state.cursor with rest := header nameIndex declared ++ body },
            state.log⟩ = .error ⟨.attributeLength item.name declared consumed, offset⟩ after' ∧
          Misdeclared (state.cursor.absolute + 6) length declared consumed offset := by
  have hdecode : ∀ other : State, other.cursor.depth = state.cursor.depth →
      decode pool other = decodeWithin pool (maxNesting + 1 - state.cursor.depth) other :=
    fun other hdepth ↦ by rw [← hdepth]; rfl
  rw [hdecode state rfl] at haccepted
  obtain ⟨nameIndex, length, body, hrest⟩ := header_of_decodeWithin haccepted
  refine ⟨nameIndex, length, body, hrest, ?_⟩
  generalize maxNesting + 1 - state.cursor.depth = levels at hdecode haccepted
  cases levels with
  | zero => cases haccepted
  | succ levels =>
    rw [decodeWithin_of_header hrest, bind_eq_ok_iff] at haccepted
    obtain ⟨name, between, hname, hframed⟩ := haccepted
    obtain ⟨hutf8, rfl⟩ := resolve_eq_ok_iff.mp hname
    obtain ⟨hcursor, hothers⟩ :=
      decodeFramed_declared (decodeWithin_relates · pool levels) hframed
    refine ⟨by simpa using hcursor, fun declared hother havailable ↦ ?_⟩
    obtain ⟨consumed, offset, after', hrefused, hneeded⟩ :=
      hothers declared hother (by simpa [hrest] using havailable)
    refine ⟨consumed, offset, after', ?_, by simpa using hneeded⟩
    have hadvance : { state.cursor with rest := header nameIndex declared ++ body }.advance 6 =
        state.cursor.advance 6 := by
      simp only [Cursor.advance, hrest, drop_header]
    rw [hdecode, decodeWithin_of_header rfl, hadvance]
    · exact (bind_of_ok (resolve_eq_ok_iff.mpr ⟨hutf8, rfl⟩)).trans hrefused
    · rfl

/-- A method body of thirteen bytes with fifteen or five in its header. -/
theorem decode_declared_oneMethod :
    let pool : ConstantPool := ⟨#[none, some (.utf8 Kind.code.nameBytes)]⟩
    let body := ClassFile.oneMethod.drop 43
    ∃ item after, decode pool (.start (.ofBytes (header 1 13 ++ body))) = .ok item after ∧
      after.cursor = (Cursor.ofBytes (header 1 13 ++ body)).advance 19 ∧
      (∃ after', decode pool (.start (.ofBytes (header 1 15 ++ body))) =
        .error ⟨.attributeLength item.name 15 13, 19⟩ after') ∧
      ∃ consumed offset after', decode pool (.start (.ofBytes (header 1 5 ++ body))) =
        .error ⟨.attributeLength item.name 5 consumed, offset⟩ after' ∧
          5 < consumed ∧ consumed ≤ 13 := by
  intro pool body
  obtain ⟨item, after, hrun⟩ : ∃ item after,
      decode pool (.start (.ofBytes (header 1 13 ++ body))) = .ok item after :=
    exists_ok_of_answer (by decide +kernel)
  obtain ⟨nameIndex, length, body', hheader, hcursor, hothers⟩ := decode_declared hrun
  obtain ⟨rfl, rfl, rfl⟩ := header_append_inj hheader
  obtain ⟨consumed, offset, after', hmore, hneeded⟩ := hothers 15 (by decide) (by decide)
  obtain ⟨rfl, rfl⟩ := hneeded.longer (by decide)
  obtain ⟨consumed, offset, after'', hless, hneeded⟩ := hothers 5 (by decide) (by decide)
  obtain ⟨hlower, hupper, -⟩ := hneeded.shorter (by decide)
  exact ⟨item, after, hrun, hcursor, ⟨after', hmore⟩, consumed, offset, after'', hless,
    hlower, hupper⟩

end ClassFormat.Attribute
