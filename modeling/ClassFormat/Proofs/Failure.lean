import ClassFormat.Proofs.Simulation

/-!
# Sources that fail

What changes where a source fails behind its last byte instead of ending there: a read that crosses
this place is reported as a failure of the source, at the place where the end of the input would
have been reported. Parts of the input are read from bytes that are there already, so nothing else
changes (`Decoder.run_failing`).
-/

set_option autoImplicit false
set_option relaxedAutoImplicit false

namespace ClassFormat

/-- The error where the source fails instead of ending. -/
def DecodeError.failed (error : DecodeError) : DecodeError :=
  match error.cause with
  | .truncated _ => ⟨.sourceFault, error.offset⟩
  | _ => error

/-- Only a read that crosses the end of the input is reported in another way. -/
theorem DecodeError.failed_of_requested? {error : DecodeError}
    (hother : error.cause.requested? = none) : error.failed = error := by
  obtain ⟨cause, offset⟩ := error
  cases cause with
  | truncated requested => cases hother
  | _ => rfl

/-- The cursor over the same bytes of a source that fails behind them. -/
def Cursor.failing (cursor : Cursor) : Cursor :=
  { cursor with ending := .fault }

/-- Reads from a source that fails give what they give where it ends, or its failure. -/
theorem Cursor.takeTogether_failing (count : Nat) {left : Cursor} (hclean : left.ending = .clean) :
    TakeTogether (fun left right ↦ left.ending = .clean ∧ right = left.failing)
      (fun first second ↦ second = first.failed) (fun _ ↦ False)
      (left.take count) (left.failing.take count) := by
  cases htaken : left.take count with
  | ok taken =>
    obtain ⟨bytes, behind⟩ := taken
    obtain ⟨hlength, hbegins, rfl⟩ := (take_eq_ok_iff _ _ _ _).mp htaken
    have htaken' : left.failing.take count = .ok (bytes, (left.advance count).failing) :=
      (take_eq_ok_iff _ _ _ _).mpr ⟨hlength, hbegins, rfl⟩
    rw [htaken']
    exact .ok ⟨hclean, rfl⟩
  | error error =>
    obtain ⟨hshort, rfl⟩ := (take_eq_error_iff _ _ _).mp htaken
    have htaken' : left.failing.take count = .error ⟨.sourceFault, left.absolute⟩ :=
      (take_eq_error_iff _ _ _).mpr ⟨hshort, rfl⟩
    rw [htaken']
    refine .error ?_
    simp only [shortage, hclean, DecodeError.failed]

/-- A source that ends against one that fails. -/
def Simulation.failure : Simulation where
  cursors left right := left.ending = .clean ∧ right = left.failing
  shift := 0
  lead := 0
  errors first second := second = first.failed
  gap _ := False
  logs left right := right = left
  absolute_eq := fun ⟨_, hright⟩ ↦ hright ▸ rfl
  position_eq := fun ⟨_, hright⟩ ↦ hright ▸ rfl
  depth_eq := fun ⟨_, hright⟩ ↦ hright ▸ rfl
  errors_moved hknown := (DecodeError.failed_of_requested? hknown).symm
  logs_push event hlogs := by rw [hlogs, Event.moved_zero]
  take_together count := fun ⟨hclean, hright⟩ ↦ hright ▸ Cursor.takeTogether_failing count hclean

namespace Decoder

variable {α : Type} {item : Decoder α}

/-- The state where the source fails instead of ending. -/
def State.failing (state : State) : State :=
  ⟨state.cursor.failing, state.log⟩

/-- The result of a run where the source fails instead of ending. -/
def failed : EStateM.Result DecodeError State α → EStateM.Result DecodeError State α :=
  mapped State.failing DecodeError.failed

/-- A run over a source that fails is the run over one that ends, up to the report of a read across
the end. -/
theorem run_failing (hitem : ∀ sim : Simulation, sim.Relates item item) {state : State}
    (hclean : state.cursor.ending = .clean) : item state.failing = failed (item state) := by
  refine (hitem .failure).run_eq_mapped State.failing DecodeError.failed
    (fun left right hstates ↦ ?_) (fun _ _ herrors ↦ herrors) (fun _ hgap ↦ hgap)
    ⟨⟨hclean, rfl⟩, rfl⟩
  obtain ⟨⟨-, hcursor⟩, hlogs⟩ := hstates
  exact congrArg₂ State.mk hcursor hlogs

/-- The state where the source ends behind its last byte. -/
def State.ending (state : State) : State :=
  ⟨{ state.cursor with ending := .clean }, state.log⟩

/-- What is not a failure of the source is an error where it ends, too. -/
theorem run_ending (hitem : ∀ sim : Simulation, sim.Relates item item) {state after : State}
    {error : DecodeError} (hrun : item state = .error error after)
    (hcause : error.cause ≠ .sourceFault) :
    ∃ after', item state.ending = .error error after' := by
  obtain ⟨⟨rest, position, origin, depth, length, ending⟩, log⟩ := state
  cases ending with
  | clean => exact ⟨after, hrun⟩
  | fault =>
    let ended : State := ⟨⟨rest, position, origin, depth, length, .clean⟩, log⟩
    have hfailing : item ended.failing = failed (item ended) := run_failing hitem rfl
    have hsame : failed (item ended) = .error error after := hfailing.symm.trans hrun
    cases hended : item ended with
    | ok value between =>
      rw [hended] at hsame
      cases hsame
    | error failure between =>
      rw [hended] at hsame
      cases hsame
      refine ⟨between, ?_⟩
      obtain ⟨cause, offset⟩ := failure
      cases cause with
      | truncated requested => exact absurd rfl hcause
      | _ => exact hended

end Decoder

end ClassFormat
