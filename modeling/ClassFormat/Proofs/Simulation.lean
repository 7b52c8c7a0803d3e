import ClassFormat.Proofs.Plain

/-!
# Two runs side by side

Decoders are compared on inputs that differ a little: more bytes follow, the bytes stand elsewhere,
the source fails behind them. A `Simulation` says which cursors go together in such a comparison and
what may come of a read through them. `Simulation.Relates` says that two decoders keep together:
they give the same value and stop at cursors that go together, or they fail with errors that go
together, or the first one falls into the `gap`, where it fails for want of bytes that the second
one has.

The combinators of decoders keep this relation, each by the lemma of its name, so that plain
decoders have it (`Decoder.Plain.relates`). A part of the input is read through cursors over the
same bytes, whatever the simulation of the cursors outside is; these cursors differ in their place
only (`Simulation.inside`, `Relates.bounded`).
-/

set_option autoImplicit false
set_option relaxedAutoImplicit false

namespace ClassFormat

/-- The error about the same bytes where they stand further on in the input. -/
def DecodeError.moved (error : DecodeError) (shift : Nat) : DecodeError :=
  ⟨error.cause, error.offset + shift⟩

@[simp] theorem DecodeError.moved_zero (error : DecodeError) : error.moved 0 = error := rfl

/-- The event about the same bytes where they stand further on in the input. -/
def Event.moved (event : Event) (shift : Nat) : Event :=
  match event with
  | .attributeBody name length offset => .attributeBody name length (offset + shift)
  | other => other

@[simp] theorem Event.moved_zero (event : Event) : event.moved 0 = event := by
  cases event <;> rfl

/-- The cursor over the same bytes where they stand further on in the input. -/
def Cursor.moved (cursor : Cursor) (shift : Nat) : Cursor :=
  { cursor with origin := cursor.origin + shift }

theorem Cursor.moved_absolute (cursor : Cursor) (shift : Nat) :
    (cursor.moved shift).absolute = cursor.absolute + shift := by
  simp only [moved, absolute]
  omega

/-- The result with the state and the error changed. -/
def Decoder.mapped {α : Type} (changeState : Decoder.State → Decoder.State)
    (changeError : DecodeError → DecodeError) :
    EStateM.Result DecodeError Decoder.State α → EStateM.Result DecodeError Decoder.State α
  | .ok value after => .ok value (changeState after)
  | .error error after => .error (changeError error) (changeState after)

/-- What may come of one read through two cursors. -/
inductive Cursor.TakeTogether (cursors : Cursor → Cursor → Prop)
    (errors : DecodeError → DecodeError → Prop) (gap : DecodeError → Prop) :
    Except DecodeError (List UInt8 × Cursor) → Except DecodeError (List UInt8 × Cursor) → Prop
  | ok {bytes : List UInt8} {left right : Cursor} (hcursors : cursors left right) :
    TakeTogether cursors errors gap (.ok (bytes, left)) (.ok (bytes, right))
  | error {first second : DecodeError} (herrors : errors first second) :
    TakeTogether cursors errors gap (.error first) (.error second)
  | gap {first : DecodeError} {right : Except DecodeError (List UInt8 × Cursor)}
    (hgap : gap first) : TakeTogether cursors errors gap (.error first) right

/-- Reads of the same bytes keep together if the cursors differ in how they count them only. -/
theorem Cursor.takeTogether_of_same_bytes (change : Cursor → Cursor) {shift : Nat}
    (hrest : ∀ cursor, (change cursor).rest = cursor.rest)
    (hending : ∀ cursor, (change cursor).ending = cursor.ending)
    (habsolute : ∀ cursor, (change cursor).absolute = cursor.absolute + shift)
    (hadvance : ∀ cursor count, (change cursor).advance count = change (cursor.advance count))
    (count : Nat) {left right : Cursor} (hright : right = change left) :
    TakeTogether (fun left right ↦ right = change left)
      (fun first second ↦ second = first.moved shift) (fun _ ↦ False)
      (left.take count) (right.take count) := by
  subst hright
  cases htaken : left.take count with
  | ok taken =>
    obtain ⟨bytes, behind⟩ := taken
    obtain ⟨hlength, hbegins, rfl⟩ := (take_eq_ok_iff _ _ _ _).mp htaken
    have htaken' : (change left).take count = .ok (bytes, change (left.advance count)) :=
      (take_eq_ok_iff _ _ _ _).mpr ⟨hlength, by rwa [hrest], (hadvance left count).symm⟩
    rw [htaken']
    exact .ok rfl
  | error error =>
    obtain ⟨hshort, rfl⟩ := (take_eq_error_iff _ _ _).mp htaken
    have htaken' : (change left).take count =
        .error ⟨left.shortage count, left.absolute + shift⟩ :=
      (take_eq_error_iff _ _ _).mpr
        ⟨by rwa [hrest], by rw [habsolute, shortage, shortage, hending]⟩
    rw [htaken']
    exact .error rfl

/-- Reads of the same bytes keep together wherever these stand. -/
theorem Cursor.takeTogether_moved (shift count : Nat) {left right : Cursor}
    (hmoved : right = left.moved shift) :
    TakeTogether (fun left right ↦ right = left.moved shift)
      (fun first second ↦ second = first.moved shift) (fun _ ↦ False)
      (left.take count) (right.take count) :=
  takeTogether_of_same_bytes (·.moved shift) (fun _ ↦ rfl) (fun _ ↦ rfl)
    (moved_absolute · shift) (fun _ _ ↦ rfl) count hmoved

/-- A way to compare runs over two inputs. -/
structure Simulation where
  /-- The cursors that go together. -/
  cursors : Cursor → Cursor → Prop
  /-- How much further on in its input the second cursor stands. -/
  shift : Nat
  /-- How many more bytes were read through the second cursor. -/
  lead : Nat
  /-- The errors that go together. -/
  errors : DecodeError → DecodeError → Prop
  /-- The errors of the first run for which the second one answers in its own way. -/
  gap : DecodeError → Prop
  /-- The logs that go together. -/
  logs : Array Event → Array Event → Prop
  absolute_eq {left right : Cursor} : cursors left right →
    right.absolute = left.absolute + shift
  position_eq {left right : Cursor} : cursors left right →
    right.position = left.position + lead
  depth_eq {left right : Cursor} : cursors left right → right.depth = left.depth
  errors_moved {error : DecodeError} : error.cause.requested? = none →
    errors error (error.moved shift)
  logs_push {left right : Array Event} (event : Event) : logs left right →
    logs (left.push event) (right.push (event.moved shift))
  take_together {left right : Cursor} (count : Nat) : cursors left right →
    Cursor.TakeTogether cursors errors gap (left.take count) (right.take count)

namespace Simulation

/-- The states that go together: their cursors and their logs do. -/
structure States (sim : Simulation) (left right : Decoder.State) : Prop where
  cursors : sim.cursors left.cursor right.cursor
  logs : sim.logs left.log right.log

/-- The results that go together. -/
inductive Results (sim : Simulation) {α : Type} :
    EStateM.Result DecodeError Decoder.State α →
      EStateM.Result DecodeError Decoder.State α → Prop
  | ok {value : α} {left right : Decoder.State} (hstates : sim.States left right) :
    Results sim (.ok value left) (.ok value right)
  | error {first second : DecodeError} {left right : Decoder.State}
    (herrors : sim.errors first second) (hstates : sim.States left right) :
    Results sim (.error first left) (.error second right)
  | gap {first : DecodeError} {left : Decoder.State}
    {right : EStateM.Result DecodeError Decoder.State α} (hgap : sim.gap first) :
    Results sim (.error first left) right

/-- Two decoders keep together: from states that go together come results that do. -/
def Relates (sim : Simulation) {α : Type} (first second : Decoder α) : Prop :=
  ∀ left right, sim.States left right → sim.Results (first left) (second right)

/-- The comparison inside a part of the input, where both runs have the same bytes and the second
one has them as much further on as the cursors outside are. -/
def inside (sim : Simulation) : Simulation where
  cursors left right := right = left.moved sim.shift
  shift := sim.shift
  lead := 0
  errors first second := second = first.moved sim.shift
  gap _ := False
  logs := sim.logs
  absolute_eq hmoved := hmoved ▸ Cursor.moved_absolute _ _
  position_eq hmoved := hmoved ▸ rfl
  depth_eq hmoved := hmoved ▸ rfl
  errors_moved _ := rfl
  logs_push := sim.logs_push
  take_together count hmoved := Cursor.takeTogether_moved sim.shift count hmoved

variable {sim : Simulation} {α β : Type}

/-! ### Values, places and failures -/

theorem Relates.pure (value : α) : sim.Relates (Pure.pure value) (Pure.pure value) :=
  fun _ _ hstates ↦ .ok hstates

/-- Decoders keep together one behind the other. Where the first run falls into the gap it has come
to its end, so nothing is asked of what the second one does from there on. -/
theorem Relates.bind {first second : Decoder α} {next next' : α → Decoder β}
    (hitem : sim.Relates first second) (hnext : ∀ value, sim.Relates (next value) (next' value)) :
    sim.Relates (first >>= next) (second >>= next') := by
  intro left right hstates
  have hresults := hitem left right hstates
  show sim.Results (EStateM.bind first next left) (EStateM.bind second next' right)
  unfold EStateM.bind
  revert hresults
  generalize first left = one
  generalize second right = other
  intro hresults
  cases hresults with
  | ok hbetween => exact hnext _ _ _ hbetween
  | error herrors hbetween => exact .error herrors hbetween
  | gap hgap => exact .gap hgap

/-- A place that is asked for is further on in the second run, for all that depends on it. -/
theorem Relates.offset_bind {next next' : Nat → Decoder α}
    (hnext : ∀ place, sim.Relates (next place) (next' (place + sim.shift))) :
    sim.Relates (Decoder.offset >>= next) (Decoder.offset >>= next') := by
  intro left right hstates
  have hresults := hnext left.cursor.absolute left right hstates
  rw [← sim.absolute_eq hstates.cursors] at hresults
  exact hresults

theorem Relates.depth : sim.Relates Decoder.depth Decoder.depth := by
  intro left right hstates
  show sim.Results (.ok left.cursor.depth left) (.ok right.cursor.depth right)
  rw [sim.depth_eq hstates.cursors]
  exact .ok hstates

/-- Inside a part of the input as much is left in both runs. -/
theorem Relates.remaining : sim.inside.Relates Decoder.remaining Decoder.remaining := by
  intro left right hstates
  have hcursors : right.cursor = _ := hstates.cursors
  show sim.inside.Results (.ok left.cursor.remaining left) (.ok right.cursor.remaining right)
  rw [show right.cursor.remaining = left.cursor.remaining by rw [hcursors]; rfl]
  exact .ok hstates

theorem Relates.failAt (place : Nat) {cause : DecodeError.Cause}
    (hknown : cause.requested? = none) :
    sim.Relates (α := α) (Decoder.failAt place cause)
      (Decoder.failAt (place + sim.shift) cause) :=
  fun _ _ hstates ↦ .error (@errors_moved sim ⟨cause, place⟩ hknown) hstates

theorem Relates.fail {cause : DecodeError.Cause} (hknown : cause.requested? = none) :
    sim.Relates (α := α) (Decoder.fail cause) (Decoder.fail cause) :=
  .offset_bind fun place ↦ .failAt place hknown

theorem Relates.record (event : Event) :
    sim.Relates (Decoder.record event) (Decoder.record (event.moved sim.shift)) :=
  fun _ _ hstates ↦ .ok ⟨hstates.cursors, sim.logs_push event hstates.logs⟩

theorem Relates.resolve (place : Nat) (answer : Except LookupError α) :
    sim.Relates (Decoder.resolve place answer)
      (Decoder.resolve (place + sim.shift) answer) := by
  cases answer with
  | ok value => exact .pure value
  | error error => exact .failAt place rfl

/-! ### Reading -/

theorem Relates.take (count : Nat) : sim.Relates (Decoder.take count) (Decoder.take count) := by
  intro left right hstates
  have htaken := sim.take_together count hstates.cursors
  unfold Decoder.take
  revert htaken
  generalize left.cursor.take count = one
  generalize right.cursor.take count = other
  intro htaken
  cases htaken with
  | ok hcursors => exact .ok ⟨hcursors, hstates.logs⟩
  | error herrors => exact .error herrors hstates
  | gap hgap => exact .gap hgap

theorem Relates.unsigned (width : Nat) :
    sim.Relates (Decoder.unsigned width) (Decoder.unsigned width) :=
  .bind (.take width) fun _ ↦ .pure _

theorem Relates.u1 : sim.Relates Decoder.u1 Decoder.u1 :=
  .bind (.unsigned 1) fun _ ↦ .pure _

theorem Relates.u2 : sim.Relates Decoder.u2 Decoder.u2 :=
  .bind (.unsigned 2) fun _ ↦ .pure _

theorem Relates.u4 : sim.Relates Decoder.u4 Decoder.u4 :=
  .bind (.unsigned 4) fun _ ↦ .pure _

/-! ### Repetition -/

theorem Relates.times {first second : Decoder α} (hitem : sim.Relates first second)
    (count : Nat) : sim.Relates (Decoder.times count first) (Decoder.times count second) := by
  induction count with
  | zero => exact .pure []
  | succ count ih =>
    rw [Decoder.times_succ, Decoder.times_succ]
    exact .bind hitem fun _ ↦ .bind ih fun _ ↦ .pure _

theorem Relates.counted {first second : Decoder α} (hitem : sim.Relates first second) :
    sim.Relates (Decoder.counted first) (Decoder.counted second) :=
  .bind .u2 fun count ↦ .times hitem count.toNat

/-! ### Plain decoders -/

/-- A byte that is refused is refused in both runs, at places as far apart as the cursors. -/
theorem Relates.branch {byte : UInt8} {place : Nat} {first second : Decoder α}
    (hbranch : Decoder.Branch (fun item ↦ sim.Relates item item) byte place (place + sim.shift)
      first second) : sim.Relates first second := by
  cases hbranch with
  | known hitem => exact hitem
  | unknown hcause => exact .failAt place (DecodeError.Cause.requested?_of_byte? hcause)

/-- To keep together with itself is a property that plain decoders have. -/
theorem closed_relates (sim : Simulation) :
    Decoder.Closed fun _ item ↦ sim.Relates item item where
  pure := .pure
  bind := .bind
  take := .take
  nesting _ := .fail rfl
  tagged hnext := .offset_bind fun place ↦ .bind .u1 fun byte ↦
    .branch (hnext place (place + sim.shift) byte)

/-! ### Parts of the input -/

/-- As many bytes were read in both runs, whatever was read before. -/
theorem Relates.measured {first second : Decoder α} (hitem : sim.Relates first second) :
    sim.Relates (Decoder.measured first) (Decoder.measured second) := by
  intro left right hstates
  have hresults := hitem left right hstates
  have hbefore := sim.position_eq hstates.cursors
  show sim.Results (EStateM.bind first _ left) (EStateM.bind second _ right)
  unfold EStateM.bind
  revert hresults
  generalize first left = one
  generalize second right = other
  intro hresults
  cases hresults with
  | @ok value left' right' hafter =>
    have hposition := sim.position_eq hafter.cursors
    have hsize : right'.cursor.position - right.cursor.position =
        left'.cursor.position - left.cursor.position := by omega
    show sim.Results (.ok (value, left'.cursor.position - left.cursor.position) left')
      (.ok (value, right'.cursor.position - right.cursor.position) right')
    rw [hsize]
    exact .ok hafter
  | error herrors hafter => exact .error herrors hafter
  | gap hgap => exact .gap hgap

theorem overrunAs_moved (overrun : Nat → DecodeError.Cause) (origin shift : Nat)
    (error : DecodeError) :
    Decoder.overrunAs overrun (origin + shift) (error.moved shift) =
      (Decoder.overrunAs overrun origin error).moved shift := by
  rcases error with ⟨cause, place⟩
  cases cause <;> simp [Decoder.overrunAs, DecodeError.moved, Nat.add_sub_add_right]

/-- Parts of the input keep together if their bodies do inside. Both runs have all bytes of the part
or the cursors outside decide, so the bodies never fall into the gap. -/
theorem Relates.bounded {body body' : Decoder α} {overrun : Nat → DecodeError.Cause}
    (length : Nat) (hbody : sim.inside.Relates body body')
    (hknown : ∀ consumed, (overrun consumed).requested? = none) :
    sim.Relates (Decoder.bounded length overrun body)
      (Decoder.bounded length overrun body') := by
  intro left right hstates
  have htaken := sim.take_together length hstates.cursors
  generalize hfirst : left.cursor.take length = first at htaken
  generalize hsecond : right.cursor.take length = second at htaken
  cases htaken with
  | error herrors =>
    rw [Decoder.bounded_of_take_error hfirst, Decoder.bounded_of_take_error hsecond]
    exact .error herrors hstates
  | gap hgap =>
    rw [Decoder.bounded_of_take_error hfirst]
    exact .gap hgap
  | @ok bytes _ _ hbehind =>
    rw [Decoder.bounded_of_take_ok hfirst, Decoder.bounded_of_take_ok hsecond]
    have habsolute := sim.absolute_eq hstates.cursors
    have hdepth := sim.depth_eq hstates.cursors
    have hwindows : sim.inside.States ⟨left.cursor.window bytes, left.log⟩
        ⟨right.cursor.window bytes, right.log⟩ :=
      ⟨by simp [Simulation.inside, Cursor.moved, Cursor.window, habsolute, hdepth], hstates.logs⟩
    have hresults := hbody _ _ hwindows
    revert hresults
    generalize body _ = one
    generalize body' _ = other
    intro hresults
    cases hresults with
    | ok hinside => exact .ok (States.mk hbehind hinside.logs)
    | error herrors hinside =>
      cases herrors
      refine .error ?_ (States.mk hbehind hinside.logs)
      rw [habsolute]
      show sim.errors _ (Decoder.overrunAs overrun (left.cursor.absolute + sim.shift)
        (DecodeError.moved _ sim.shift))
      rw [overrunAs_moved]
      exact sim.errors_moved (Decoder.requested?_overrunAs hknown _ _)
    | gap hgap => exact hgap.elim

/-! ### Equations between runs -/

/-- Where the simulation fixes the second run, its result is that of the first one with the state
and the error changed. -/
theorem Relates.run_eq_mapped {item item' : Decoder α} (hitem : sim.Relates item item')
    (changeState : Decoder.State → Decoder.State) (changeError : DecodeError → DecodeError)
    (hstates : ∀ left right, sim.States left right → right = changeState left)
    (herrors : ∀ first second, sim.errors first second → second = changeError first)
    (hgap : ∀ first, ¬sim.gap first) {state : Decoder.State}
    (htogether : sim.States state (changeState state)) :
    item' (changeState state) = Decoder.mapped changeState changeError (item state) := by
  have hresults := hitem state (changeState state) htogether
  generalize item state = first at hresults ⊢
  generalize item' (changeState state) = second at hresults ⊢
  cases hresults with
  | ok hafter => rw [hstates _ _ hafter, Decoder.mapped]
  | error herror hafter => rw [hstates _ _ hafter, herrors _ _ herror, Decoder.mapped]
  | gap hfirst => exact absurd hfirst (hgap _)

end Simulation

/-- A plain decoder keeps together with itself. -/
theorem Decoder.Plain.relates {α : Type} {item : Decoder α} (hitem : Decoder.Plain item)
    (sim : Simulation) : sim.Relates item item :=
  hitem _ sim.closed_relates

end ClassFormat
