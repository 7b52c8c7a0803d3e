import ClassFormat.Proofs.Extension
import ClassFormat.Proofs.Failure

/-!
# Sources behind cursors

A cursor stands for a source that is called for bytes. A call may deliver fewer bytes than were
asked for, it may be interrupted, and it may fail. `Source.Gathers` is how bytes are had from such
calls: an interrupted call is repeated, and once the bytes are there the source is not called again.
`Source.Serves` says that a cursor is a view of a source: what is read through the cursor is what is
gathered from the source.

The main statement, `ClassFile.decode_over_faltering`, is about a source that hands out its bytes
one by one, with an interruption before every call, and fails when they are gone. A class file is
read from it as from the bytes alone, and where these are truncated the source is reported to have
failed, at the same place.
-/

set_option autoImplicit false
set_option relaxedAutoImplicit false

namespace ClassFormat

/-! ### Calls -/

/-- What a source answers to one call. -/
inductive Source.Reply where
  /-- The bytes that come next, or some of them. There are none where the source has ended. -/
  | delivered (bytes : List UInt8)
  /-- Nothing was done, and the call may be repeated. -/
  | interrupted
  | failed

/-- A source of bytes. A call asks for at most some number of bytes. -/
structure Source where
  State : Type
  call : State → (most : Nat) → Source.Reply × State

namespace Source

/-- Calls for `count` bytes until they are there, or the source ends or fails before. -/
inductive Gathers (source : Source) :
    source.State → (count : Nat) → Except Ending (List UInt8) → source.State → Prop
  | enough (state : source.State) : Gathers source state 0 (.ok []) state
  | interrupted {state between after : source.State} {count : Nat}
    {outcome : Except Ending (List UInt8)}
    (hcall : source.call state (count + 1) = (.interrupted, between))
    (hagain : Gathers source between (count + 1) outcome after) :
    Gathers source state (count + 1) outcome after
  | delivered {state between after : source.State} {count : Nat} {bytes : List UInt8}
    {outcome : Except Ending (List UInt8)}
    (hcall : source.call state (count + 1) = (.delivered bytes, between))
    (hsome : bytes ≠ []) (hmost : bytes.length ≤ count + 1)
    (hfurther : Gathers source between (count + 1 - bytes.length) outcome after) :
    Gathers source state (count + 1) (outcome.map (bytes ++ ·)) after
  | ended {state after : source.State} {count : Nat}
    (hcall : source.call state (count + 1) = (.delivered [], after)) :
    Gathers source state (count + 1) (.error .clean) after
  | failed {state after : source.State} {count : Nat}
    (hcall : source.call state (count + 1) = (.failed, after)) :
    Gathers source state (count + 1) (.error .fault) after

/-- What is gathered is determined by the source: each way to go on needs another answer to the same
call. -/
theorem Gathers.unique {source : Source} {state after after' : source.State} {count : Nat}
    {outcome outcome' : Except Ending (List UInt8)}
    (hfirst : source.Gathers state count outcome after)
    (hsecond : source.Gathers state count outcome' after') :
    outcome = outcome' ∧ after = after' := by
  induction hfirst generalizing outcome' after' with
  | enough state =>
    cases hsecond
    exact ⟨rfl, rfl⟩
  | interrupted hcall hagain ih => cases hsecond <;> grind
  | delivered hcall hsome hmost hfurther ih => cases hsecond <;> grind
  | ended hcall => cases hsecond <;> grind
  | failed hcall => cases hsecond <;> grind

/-- A cursor is a view of a source in a state. Whatever number of bytes is asked for, they are
gathered, or the source ends or fails. A read through the cursor gives the bytes, and the cursor
behind them is again such a view, or it gives the error about this end or this failure. -/
def Serves (source : Source) (state : source.State) (cursor : Cursor) : Prop :=
  ∃ together : source.State → Cursor → Prop, together state cursor ∧
    ∀ state cursor, together state cursor → ∀ count,
      (∃ outcome after, source.Gathers state count outcome after) ∧
      ∀ outcome after, source.Gathers state count outcome after →
        match outcome with
        | .ok bytes => cursor.take count = .ok (bytes, cursor.advance count) ∧
          together after (cursor.advance count)
        | .error ending => cursor.ending = ending ∧
          cursor.take count = .error ⟨cursor.shortage count, cursor.absolute⟩

/-- What a source has left in each of its states, and what is met behind that. -/
structure Delivers (source : Source) (left : source.State → List UInt8) (ending : Ending) :
    Prop where
  of_le {state : source.State} {count : Nat} (hcount : count ≤ (left state).length) :
    ∃ after, source.Gathers state count (.ok ((left state).take count)) after ∧
      left after = (left state).drop count
  of_lt {state : source.State} {count : Nat} (hcount : (left state).length < count) :
    ∃ after, source.Gathers state count (.error ending) after

/-- A cursor over what a source has left is a view of the source. -/
theorem Delivers.serves {source : Source} {left : source.State → List UInt8} {ending : Ending}
    (hdelivers : source.Delivers left ending) {state : source.State} {cursor : Cursor}
    (hrest : cursor.rest = left state) (hending : cursor.ending = ending) :
    source.Serves state cursor := by
  refine ⟨fun state cursor ↦ cursor.rest = left state ∧ cursor.ending = ending,
    ⟨hrest, hending⟩, ?_⟩
  rintro state cursor ⟨hrest, hending⟩ count
  by_cases hcount : count ≤ (left state).length
  · obtain ⟨after, hgathers, hafter⟩ := hdelivers.of_le hcount
    refine ⟨⟨_, after, hgathers⟩, fun outcome after' hgathers' ↦ ?_⟩
    obtain ⟨rfl, rfl⟩ := hgathers.unique hgathers'
    rw [← hrest] at hcount hafter ⊢
    exact ⟨(Cursor.take_eq_ok_iff _ _ _ _).mpr
      ⟨List.length_take_of_le hcount, List.take_prefix _ _, rfl⟩, hafter.symm, hending⟩
  · have hshort := Nat.lt_of_not_le hcount
    obtain ⟨after, hgathers⟩ := hdelivers.of_lt hshort
    refine ⟨⟨_, after, hgathers⟩, fun outcome after' hgathers' ↦ ?_⟩
    obtain ⟨rfl, rfl⟩ := hgathers.unique hgathers'
    rw [← hrest] at hshort
    exact ⟨hending, (Cursor.take_eq_error_iff _ _ _).mpr ⟨hshort, rfl⟩⟩

/-! ### Two sources -/

/-- The source that delivers as many bytes as a call asks for, and ends behind its last byte. -/
def plain : Source where
  State := List UInt8
  call left most := (.delivered (left.take most), left.drop most)

theorem plain_delivers : plain.Delivers id .clean where
  of_le {left count} hcount := by
    cases count with
    | zero => exact ⟨left, .enough left, rfl⟩
    | succ count =>
      have hlength : (List.take (count + 1) left).length = count + 1 :=
        List.length_take_of_le hcount
      have hfurther : plain.Gathers (List.drop (count + 1) left)
          (count + 1 - (List.take (count + 1) left).length) (.ok [])
          (List.drop (count + 1) left) := by
        rw [hlength, Nat.sub_self]
        exact .enough _
      have hgathers := hfurther.delivered rfl (List.ne_nil_of_length_eq_add_one hlength)
        (Nat.le_of_eq hlength)
      rw [Except.map, List.append_nil] at hgathers
      exact ⟨_, hgathers, rfl⟩
  of_lt {left count} hcount := by
    cases left with
    | nil =>
      obtain ⟨count, rfl⟩ := Nat.exists_eq_add_one.mpr hcount
      exact ⟨[], .ended rfl⟩
    | cons byte left =>
      have hcount' : (byte :: left).length < count := hcount
      obtain ⟨count, rfl⟩ := Nat.exists_eq_add_one.mpr (Nat.zero_lt_of_lt hcount')
      obtain ⟨missing, hmissing⟩ := Nat.exists_eq_add_one.mpr (Nat.sub_pos_of_lt hcount')
      have htaken : (byte :: left).take (count + 1) = byte :: left :=
        List.take_of_length_le (Nat.le_of_lt hcount')
      have hfurther : plain.Gathers [] (count + 1 - (byte :: left).length) (.error .clean) [] := by
        rw [hmissing]
        exact .ended rfl
      have hcall : plain.call (byte :: left) (count + 1) = (.delivered (byte :: left), []) := by
        show (Reply.delivered (List.take _ _), List.drop _ _) = _
        rw [htaken, List.drop_of_length_le (Nat.le_of_lt hcount')]
      exact ⟨_, hfurther.delivered hcall (List.cons_ne_nil _ _) (Nat.le_of_lt hcount')⟩

/-- The source that hands out its bytes one by one and fails when they are gone. Every call is
interrupted once before it is answered; the state says whether that has happened. -/
def faltering : Source where
  State := List UInt8 × Bool
  call
    | (left, false), _ => (.interrupted, (left, true))
    | ([], true), _ => (.failed, ([], false))
    | (byte :: left, true), _ => (.delivered [byte], (left, false))

/-- An interruption before a call changes nothing. -/
theorem Gathers.of_ready {left : List UInt8} {count : Nat} {outcome : Except Ending (List UInt8)}
    {after : faltering.State} (ready : Bool)
    (hgathers : faltering.Gathers (left, true) (count + 1) outcome after) :
    faltering.Gathers (left, ready) (count + 1) outcome after := by
  cases ready with
  | true => exact hgathers
  | false => exact hgathers.interrupted rfl

/-- The next byte is gathered, and then the others are. -/
theorem Gathers.faltering_cons {byte : UInt8} {left : List UInt8} {count : Nat}
    {outcome : Except Ending (List UInt8)} {after : faltering.State} (ready : Bool)
    (hfurther : faltering.Gathers (left, false) count outcome after) :
    faltering.Gathers (byte :: left, ready) (count + 1) (outcome.map (byte :: ·)) after :=
  have hcall : faltering.call (byte :: left, true) (count + 1) =
      (.delivered [byte], (left, false)) := rfl
  .of_ready ready (.delivered hcall (List.cons_ne_nil _ _) (Nat.le_add_left 1 count) hfurther)

theorem faltering_delivers : faltering.Delivers Prod.fst .fault where
  of_le {state count} hcount := by
    obtain ⟨left, ready⟩ := state
    induction count generalizing left ready with
    | zero => exact ⟨(left, ready), .enough _, rfl⟩
    | succ count ih =>
      cases left with
      | nil => cases hcount
      | cons byte left =>
        obtain ⟨after, hfurther, hafter⟩ := ih left false (Nat.le_of_succ_le_succ hcount)
        exact ⟨after, hfurther.faltering_cons ready, hafter⟩
  of_lt {state count} hcount := by
    obtain ⟨left, ready⟩ := state
    induction left generalizing count ready with
    | nil =>
      obtain ⟨count, rfl⟩ := Nat.exists_eq_add_one.mpr hcount
      exact ⟨([], false), .of_ready ready (.failed rfl)⟩
    | cons byte left ih =>
      obtain ⟨count, rfl⟩ := Nat.exists_eq_add_one.mpr (Nat.zero_lt_of_lt hcount)
      obtain ⟨after, hfurther⟩ := ih false (Nat.lt_of_succ_lt_succ hcount)
      exact ⟨after, hfurther.faltering_cons ready⟩

end Source

/-! ### Outcomes -/

namespace Decoder

variable {α : Type}

/-- What a decoder gives through a cursor, how many bytes it has read then, and what it reports. -/
def outcome (item : Decoder α) (cursor : Cursor) : Except DecodeError α × Nat × List Event :=
  match item.run (.start cursor) with
  | .ok value after => (.ok value, after.cursor.position, after.log.toList)
  | .error error after => (.error error, after.cursor.position, after.log.toList)

/-- Where the source fails instead of ending, the outcome is another error only where the end of the
input was reported. -/
theorem outcome_failing {item : Decoder α} (hitem : ∀ sim : Simulation, sim.Relates item item)
    {cursor : Cursor} (hclean : cursor.ending = .clean) :
    outcome item cursor.failing =
      ((outcome item cursor).1.mapError DecodeError.failed, (outcome item cursor).2) := by
  have hrun : item.run (.start cursor.failing) = failed (item.run (.start cursor)) :=
    @run_failing _ _ hitem (.start cursor) hclean
  rw [outcome, outcome, hrun]
  cases item.run (.start cursor) with
  | ok value after => rfl
  | error error after => rfl

end Decoder

theorem Cursor.ofFailing_of_le {bytes : List UInt8} {limit : Nat} (hlimit : limit ≤ bytes.length) :
    ofFailing bytes limit = (ofBytes (bytes.take limit)).failing := by
  rw [ofFailing, if_pos hlimit, failing]

namespace ClassFile

open Decoder

/-- A class file is read from a source that falters as from its bytes alone, with the same bytes
read and the same events. Where the bytes are truncated the failure is reported, at the same
place. -/
theorem decode_over_faltering {bytes : List UInt8} {limit : Nat} (hlimit : limit ≤ bytes.length) :
    Source.plain.Serves (bytes.take limit) (.ofBytes (bytes.take limit)) ∧
    Source.faltering.Serves (bytes.take limit, false) (.ofFailing bytes limit) ∧
    (∀ requested offset told,
      outcome ClassFile.decode (.ofBytes (bytes.take limit)) =
        (.error ⟨.truncated requested, offset⟩, told) →
      outcome ClassFile.decode (.ofFailing bytes limit) = (.error ⟨.sourceFault, offset⟩, told)) ∧
    ((∀ requested offset told,
      outcome ClassFile.decode (.ofBytes (bytes.take limit)) ≠
        (.error ⟨.truncated requested, offset⟩, told)) →
      outcome ClassFile.decode (.ofFailing bytes limit) =
        outcome ClassFile.decode (.ofBytes (bytes.take limit))) := by
  have hfailing := @outcome_failing _ _ ClassFile.decode_relates (.ofBytes (bytes.take limit)) rfl
  rw [Cursor.ofFailing_of_le hlimit, hfailing]
  refine ⟨Source.plain_delivers.serves rfl rfl, Source.faltering_delivers.serves rfl rfl,
    fun requested offset told hplain ↦ ?_, fun hother ↦ ?_⟩
  · rw [hplain]
    rfl
  · generalize outcome ClassFile.decode (.ofBytes (bytes.take limit)) = plain at hother ⊢
    obtain ⟨answer, told⟩ := plain
    cases answer with
    | ok file => rfl
    | error error =>
      obtain ⟨cause, offset⟩ := error
      cases cause with
      | truncated requested => exact absurd rfl (hother requested offset told)
      | _ => rfl

/-- Where the source fails within the only attribute of the class of one method, this is reported
where the body of the attribute begins. A failure behind the class is not met. -/
theorem oneMethod_over_faltering :
    Source.faltering.Serves (oneMethod.take 51, false) (.ofFailing oneMethod 51) ∧
      outcome ClassFile.decode (.ofFailing oneMethod 51) =
        (.error ⟨.sourceFault, 43⟩, 43, [.version 52 0, .pool 2]) ∧
      outcome ClassFile.decode (.ofFailing oneMethod 58) =
        outcome ClassFile.decode (.ofBytes oneMethod) := by
  obtain ⟨-, hserves, hfault, -⟩ := @decode_over_faltering oneMethod 51 (by decide)
  obtain ⟨-, -, -, hwhole⟩ := @decode_over_faltering oneMethod 58 (by decide)
  have htruncated : (match outcome ClassFile.decode (.ofBytes (oneMethod.take 51)) with
      | (.error error, told) => some (error, told)
      | (.ok _, _) => none) =
        some (⟨.truncated 13, 43⟩, 43, [.version 52 0, .pool 2]) := by decide +kernel
  have haccepted : (outcome ClassFile.decode (.ofBytes (oneMethod.take 58))).1.isOk := by
    decide +kernel
  refine ⟨hserves, hfault 13 43 _ ?_, hwhole fun requested offset told htruncated ↦ ?_⟩
  · split at htruncated
    · rename_i hplain
      cases htruncated
      exact hplain
    · cases htruncated
  · rw [htruncated] at haccepted
    cases haccepted

end ClassFile

end ClassFormat
