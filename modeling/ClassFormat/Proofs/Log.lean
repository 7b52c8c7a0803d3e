import ClassFormat.Proofs.Extension
import ClassFormat.Proofs.Places
import ClassFormat.Proofs.PoolSlots

/-!
# The log of reading a class file

Reading reports the version, then the size of the pool, then one event for each attribute of the
fields and of the methods, then how many members there are, and last one event for each attribute of
the class. `Attribute.Recorded` says of a stretch of a run which attributes were reported on the way
and that they are written in the input, one behind the other, where the events say. It is kept when
stretches of a run are joined (`Recorded.trans`).

The main statement, `ClassFile.ofBytes_logged`, is that the log of a class file that is accepted is
the walk through its attributes, each before those of its method body (`ClassFile.Logged`).
-/

set_option autoImplicit false
set_option relaxedAutoImplicit false

namespace ClassFormat

open Decoder

/-! ### Cursors over the input -/

/-- Behind a cursor come the bytes of the input from the place of the cursor on. -/
def Cursor.Over (input : List UInt8) (cursor : Cursor) : Prop :=
  cursor.rest = input.drop cursor.absolute

theorem Cursor.over_ofBytes (input : List UInt8) : (ofBytes input).Over input := rfl

theorem Cursor.Over.advance {input : List UInt8} {cursor : Cursor} (hover : cursor.Over input)
    (count : Nat) : (cursor.advance count).Over input := by
  rw [Over, advance_rest, hover, advance_absolute, List.drop_drop]

namespace Attribute

/-! ### Stretches of a run -/

variable {pool : ConstantPool} {input : List UInt8} {α β : Type}

/-- The events of attributes and of all that lie in them. -/
def events (places : List Placed) : List Event :=
  (places.flatMap Placed.walk).map Placed.event

theorem events_append (places places' : List Placed) :
    events (places ++ places') = events places ++ events places' := by
  rw [events, List.flatMap_append, List.map_append, events, events]

/-- A run has come from one state to another and reported some events, and attributes are written in
between, one behind the other. -/
structure Recorded (pool : ConstantPool) (input : List UInt8) (state after : State)
    (places : List Placed) (reported : List Event) : Prop where
  isOver : after.cursor.Over input
  le_absolute : state.cursor.absolute ≤ after.cursor.absolute
  within : ∀ placed ∈ places,
    state.cursor.absolute ≤ placed.offset ∧ placed.stop ≤ after.cursor.absolute
  disjoint : places.Pairwise fun left right ↦ left.stop ≤ right.offset
  stands : ∀ placed ∈ places, placed.Stands pool input
  log : after.log.toList = state.log.toList ++ reported

theorem Recorded.trans {state between after : State} {places places' : List Placed}
    {reported reported' : List Event}
    (hfirst : Recorded pool input state between places reported)
    (hsecond : Recorded pool input between after places' reported') :
    Recorded pool input state after (places ++ places') (reported ++ reported') where
  isOver := hsecond.isOver
  le_absolute := hfirst.le_absolute.trans hsecond.le_absolute
  within := by
    intro placed hplaced
    have hmiddle := hfirst.le_absolute
    have hmiddle' := hsecond.le_absolute
    rcases List.mem_append.mp hplaced with hplaced | hplaced
    · have hwithin := hfirst.within placed hplaced
      omega
    · have hwithin := hsecond.within placed hplaced
      omega
  disjoint := by
    refine List.pairwise_append.mpr ⟨hfirst.disjoint, hsecond.disjoint, ?_⟩
    intro left hleft right hright
    exact (hfirst.within left hleft).2.trans (hsecond.within right hright).1
  stands placed hplaced :=
    (List.mem_append.mp hplaced).elim (hfirst.stands placed) (hsecond.stands placed)
  log := by rw [hsecond.log, hfirst.log, List.append_assoc]

/-- Where no attributes are read, only what was reported matters. -/
theorem Recorded.of_advance {state after : State} {reported : List Event} (count : Nat)
    (hover : state.cursor.Over input) (hcursor : after.cursor = state.cursor.advance count)
    (hlog : after.log.toList = state.log.toList ++ reported) :
    Recorded pool input state after [] reported where
  isOver := hcursor ▸ hover.advance count
  le_absolute := by
    rw [hcursor, Cursor.advance_absolute]
    exact Nat.le_add_right _ _
  within := by simp
  disjoint := .nil
  stands := by simp
  log := hlog

theorem Recorded.refl {state : State} (hover : state.cursor.Over input) :
    Recorded pool input state state [] [] :=
  .of_advance 0 hover (Cursor.advance_zero _).symm (List.append_nil _).symm

section Steps

variable {state between after : State} {places : List Placed} {reported : List Event}

/-- What moves forward reports nothing. -/
theorem Recorded.forward {item : Decoder α} {value : α}
    (hbefore : Recorded pool input state between places reported) (hitem : Forward item)
    (hrun : item between = .ok value after) :
    Recorded pool input state after places reported := by
  have hadvanced := hitem between
  rw [hrun] at hadvanced
  cases hadvanced with
  | @ok _ count hcount =>
    have hnothing : Recorded pool input between ⟨between.cursor.advance count, between.log⟩ [] [] :=
      .of_advance count hbefore.isOver rfl (List.append_nil _).symm
    have hboth := hbefore.trans hnothing
    rwa [List.append_nil, List.append_nil] at hboth

theorem Recorded.report {event : Event} {answer : Unit}
    (hbefore : Recorded pool input state between places reported)
    (hrun : record event between = .ok answer after) :
    Recorded pool input state after places (reported ++ [event]) := by
  cases hrun
  have hevent : Recorded pool input between ⟨between.cursor, between.log.push event⟩ [] [event] :=
    .of_advance 0 hbefore.isOver (Cursor.advance_zero _).symm Array.toList_push
  have hboth := hbefore.trans hevent
  rwa [List.append_nil] at hboth

end Steps

/-- Wherever a decoder gives a value, it has reported the attributes of this value. -/
def Records (pool : ConstantPool) (input : List UInt8) (item : Decoder α)
    (attributes : α → List Attribute) : Prop :=
  ∀ state value after, state.cursor.Over input → item state = .ok value after →
    ∃ places, places.map Placed.item = attributes value ∧
      Recorded pool input state after places (events places)

theorem Records.forward_bind {item : Decoder α} {next : α → Decoder β}
    {attributes : β → List Attribute} (hitem : Forward item)
    (hnext : ∀ value, Records pool input (next value) attributes) :
    Records pool input (item >>= next) attributes := by
  intro state value after hover hrun
  obtain ⟨first, between, hfirst, hsecond⟩ := bind_eq_ok_iff.mp hrun
  have hstart : Recorded pool input state state [] [] := .refl hover
  have hnothing := hstart.forward hitem hfirst
  obtain ⟨places, hplaces, hrecorded⟩ := hnext first between value after hnothing.isOver hsecond
  exact ⟨places, hplaces, hnothing.trans hrecorded⟩

/-- A value that is made of the one that is read and has its attributes. -/
theorem Records.map {item : Decoder α} {attributes : α → List Attribute}
    {attributes' : β → List Attribute} {make : α → β} (hitem : Records pool input item attributes)
    (hmake : ∀ value, attributes' (make value) = attributes value) :
    Records pool input (do return make (← item)) attributes' := by
  intro state value after hover hrun
  obtain ⟨first, between, hfirst, hend⟩ := bind_eq_ok_iff.mp hrun
  cases hend
  obtain ⟨places, hplaces, hrecorded⟩ := hitem state first _ hover hfirst
  exact ⟨places, hplaces.trans (hmake first).symm, hrecorded⟩

theorem Records.times {item : Decoder α} {attributes : α → List Attribute}
    (hitem : Records pool input item attributes) (count : Nat) :
    Records pool input (Decoder.times count item) fun values ↦ values.flatMap attributes := by
  induction count with
  | zero =>
    intro state values after hover hrun
    cases hrun
    exact ⟨[], rfl, .refl hover⟩
  | succ count ih =>
    intro state values after hover hrun
    rw [times_succ, bind_eq_ok_iff] at hrun
    obtain ⟨value, between, hvalue, hrest⟩ := hrun
    obtain ⟨values, _, hvalues, hend⟩ := bind_eq_ok_iff.mp hrest
    cases hend
    obtain ⟨places, hplaces, hrecorded⟩ := hitem state value between hover hvalue
    obtain ⟨places', hplaces', hrecorded'⟩ := ih between values _ hrecorded.isOver hvalues
    refine ⟨places ++ places', ?_, events_append places places' ▸ hrecorded.trans hrecorded'⟩
    rw [List.map_append, hplaces, hplaces']
    exact List.flatMap_cons.symm

/-! ### Attributes and members -/

theorem decode_records : Records pool input (decode pool) fun item ↦ [item] := by
  intro state item after hover hrun
  rw [decode, bind_of_ok (depth_run state)] at hrun
  obtain ⟨hcursor, word, hword, hbegins⟩ := advance_of_decodeWithin hrun
  have hlog := (decodeWithin_reportsWalk pool _ state item after hrun).2
  refine ⟨[⟨item, state.cursor.absolute⟩], rfl, ?_⟩
  exact {
    isOver := hcursor ▸ hover.advance _
    le_absolute := by
      rw [hcursor, Cursor.advance_absolute]
      exact Nat.le_add_right _ _
    within := by simp [hcursor, Placed.stop]
    disjoint := List.pairwise_singleton _ _
    stands := by
      rintro placed hplaced
      obtain rfl := List.mem_singleton.mp hplaced
      exact ⟨word, hword, hover ▸ hbegins⟩
    log := by rw [hlog, events, List.flatMap_singleton, Placed.walk] }

theorem table_records : Records pool input (Attributes.decode (some pool)) id := by
  have hsame : (fun items : List Attribute ↦ items.flatMap fun item ↦ [item]) = id :=
    funext List.flatMap_singleton'
  exact .forward_bind Plain.u2.forward fun count ↦ hsame ▸ decode_records.times count.toNat

end Attribute

open Attribute

theorem Member.decode_records {declared : Declared} {pool : ConstantPool} {input : List UInt8} :
    Records pool input (Member.decode (some pool))
      fun member : Member declared ↦ member.attributes :=
  .forward_bind Plain.u2.forward fun _ ↦ .forward_bind Plain.u2.forward fun _ ↦
    .forward_bind Plain.u2.forward fun _ ↦ table_records.map fun _ ↦ rfl

namespace ClassFile

/-! ### Class files -/

/-- What the log of reading a class file says: which attributes of members, and then which of the
class itself, stand where. -/
structure Logged (file : ClassFile) (input : List UInt8) (members own : List Placed)
    (log : List Event) : Prop where
  members_eq : members.map Placed.item =
    file.fields.flatMap (·.attributes) ++ file.methods.flatMap (·.attributes)
  own_eq : own.map Placed.item = file.attributes
  /-- The log is the walk through these attributes, and tells the version, the size of the pool and
  the numbers of members. -/
  log_eq : ∃ interfaces fields methods : UInt16,
    interfaces.toNat = file.interfaces.length ∧ fields.toNat = file.fields.length ∧
      methods.toNat = file.methods.length ∧
      log = [.version file.majorVersion file.minorVersion, .pool file.pool.size] ++
        events members ++ [.members interfaces fields methods] ++ events own
  /-- An event tells the name of the attribute and the length that stands at its offset, behind the
  index of this name. -/
  header : ∀ placed ∈ (members ++ own).flatMap Placed.walk, ∃ nameIndex length,
    Attribute.header nameIndex length <+: input.drop placed.offset ∧
      file.pool.utf8 nameIndex.toNat = .ok placed.item.kind.nameBytes ∧
      placed.event = .attributeBody placed.item.name length placed.offset ∧
      placed.stop = placed.offset + 6 + length.toNat
  increasing : ((members ++ own).flatMap Placed.walk).Pairwise
    fun left right ↦ left.offset < right.offset
  disjoint : (members ++ own).Pairwise fun left right ↦ left.stop ≤ right.offset
  /-- The attributes of a method body lie in the body of the attribute that holds it, and have no
  byte in common. -/
  nested : ∀ outer ∈ (members ++ own).flatMap Placed.walk,
    (outer.nested.Pairwise fun left right ↦ left.stop ≤ right.offset) ∧
      ∀ inner ∈ outer.nested.flatMap Placed.walk,
        outer.offset + 6 ≤ inner.offset ∧ inner.stop ≤ outer.stop

theorem decodeMagic_forward : Forward decodeMagic := by
  refine .offset_bind fun place ↦ .bind Plain.u4.forward fun found ↦ ?_
  by_cases hfound : found = magic
  · rw [if_pos hfound]
    exact .pure ()
  · rw [if_neg hfound]
    exact .failAt place fun hmismatch ↦ hmismatch

theorem length_of_times {α : Type} {item : Decoder α} {count : Nat} {state after : State}
    {values : List α} (hrun : times count item state = .ok values after) :
    values.length = count := by
  induction count generalizing state values with
  | zero =>
    cases hrun
    rfl
  | succ count ih =>
    rw [times_succ, bind_eq_ok_iff] at hrun
    obtain ⟨value, between, -, hrest⟩ := hrun
    obtain ⟨values, _, hvalues, hend⟩ := bind_eq_ok_iff.mp hrest
    cases hend
    rw [List.length_cons, ih hvalues]

theorem decode_logged {input : List UInt8} {state after : State} {file : ClassFile}
    (hover : state.cursor.Over input) (hlog : state.log = #[])
    (hrun : ClassFile.decode state = .ok file after) :
    ∃ members own, file.Logged input members own after.log.toList := by
  simp only [ClassFile.decode, ConstantPool.decode, bind_assoc, bind_eq_ok_iff] at hrun
  obtain ⟨_, _, hmagic, minor, _, hminor, major, _, hmajor, _, _, hversion, hrun⟩ := hrun
  obtain ⟨count, _, hcount, slots, _, hslots, _, _, hsize, pool, _, hpool, hrun⟩ := hrun
  cases hpool
  obtain ⟨bits, _, hbits, this, _, hthis, super, _, hsuper, hrun⟩ := hrun
  obtain ⟨interfaceCount, _, hinterfaceCount, interfaces, _, hinterfaces, hrun⟩ := hrun
  obtain ⟨fieldCount, _, hfieldCount, fields, _, hfields, hrun⟩ := hrun
  obtain ⟨methodCount, _, hmethodCount, methods, _, hmethods, _, _, hcounts, hrun⟩ := hrun
  obtain ⟨attributes, _, hattributes, hfile⟩ := hrun
  cases hfile
  have hu2 : Forward u2 := Plain.u2.forward
  have hstart : Recorded ⟨slots⟩ input state state [] [] := .refl hover
  have hhead := ((hstart.forward decodeMagic_forward hmagic).forward hu2 hminor).forward hu2 hmajor
  have hslots' := ((hhead.report hversion).forward hu2 hcount).forward
    (ConstantPool.decodeOnto_forward _ _) hslots
  have hclass := ((((hslots'.report hsize).forward hu2 hbits).forward hu2 hthis).forward hu2
    hsuper).forward hu2 hinterfaceCount
  have hinterfaces' := (hclass.forward (Plain.times .u2 _).forward hinterfaces).forward hu2
    hfieldCount
  obtain ⟨fieldPlaces, hfieldItems, hfieldsRecorded⟩ :=
    Member.decode_records.times fieldCount.toNat _ _ _ hinterfaces'.isOver hfields
  have hfields' := (hinterfaces'.trans hfieldsRecorded).forward hu2 hmethodCount
  obtain ⟨methodPlaces, hmethodItems, hmethodsRecorded⟩ :=
    Member.decode_records.times methodCount.toNat _ _ _ hfields'.isOver hmethods
  have hmembers := (hfields'.trans hmethodsRecorded).report hcounts
  obtain ⟨own, hownItems, hownRecorded⟩ := table_records _ _ _ hmembers.isOver hattributes
  have hall := hmembers.trans hownRecorded
  rw [List.nil_append] at hall
  refine ⟨fieldPlaces ++ methodPlaces, own, ?_⟩
  exact {
    members_eq := by rw [List.map_append, hfieldItems, hmethodItems]
    own_eq := hownItems
    log_eq := by
      refine ⟨interfaceCount, fieldCount, methodCount, (length_of_times hinterfaces).symm,
        (length_of_times hfields).symm, (length_of_times hmethods).symm, ?_⟩
      rw [hall.log, hlog]
      simp [ConstantPool.size, events_append]
    header := by
      intro placed hplaced
      obtain ⟨outer, houter, hinner⟩ := List.mem_flatMap.mp hplaced
      obtain ⟨nameIndex, length, hheader, hname, hlength⟩ :=
        ((hall.stands outer houter).walk hinner).header
      refine ⟨nameIndex, length, hheader, hname, ?_, ?_⟩
      · rw [Placed.event, ← hlength, UInt32.ofNat_toNat]
      · rw [Placed.stop, Attribute.size, hlength, Nat.add_assoc]
    increasing := pairwise_flatMap_walk hall.disjoint fun placed _ ↦ placed.pairwise_walk
    disjoint := hall.disjoint
    nested := by
      intro outer _
      refine ⟨outer.pairwise_nested, fun inner hinner ↦ ?_⟩
      obtain ⟨between, hbetween, hinner⟩ := List.mem_flatMap.mp hinner
      have hnested := Placed.nested_within hbetween
      have hwithin := Placed.mem_walk_within hinner
      omega }

/-- Bytes that are a class file are read to their end, and looking for the end reports nothing. -/
theorem decode_of_ofBytes {bytes : List UInt8} {file : ClassFile} {log : List Event}
    (hread : ofBytes bytes = (.ok file, log)) :
    ∃ after, ClassFile.decode (.start (.ofBytes bytes)) = .ok file after ∧
      after.log.toList = log := by
  unfold ofBytes decodeWhole EStateM.run at hread
  cases hrun : ClassFile.decode (.start (.ofBytes bytes)) with
  | error error after =>
    rw [bind_of_error hrun] at hread
    cases hread
  | ok value after =>
    obtain ⟨count, -, hcursor⟩ := cursor_eq_advance ClassFile.decode_relates rfl hrun
    have hclean : after.cursor.ending = .clean := by
      rw [hcursor]
      rfl
    rw [bind_of_ok hrun, bind_of_ok (remaining_run _), bind_of_ok (atEnd_run hclean)] at hread
    refine ⟨after, ?_⟩
    cases hend : after.cursor.rest.isEmpty with
    | false =>
      rw [hend] at hread
      cases hread
    | true =>
      rw [hend] at hread
      cases hread
      exact ⟨rfl, rfl⟩

/-- The bytes of a class with a synthetic field and with a method that is deprecated by its code, as
the class is by itself. -/
def deprecatedWithin : List UInt8 :=
  [0xca, 0xfe, 0xba, 0xbe, 0, 0, 0, 52,
    0, 4, 1, 0, 4, 67, 111, 100, 101, 1, 0, 9, 83, 121, 110, 116, 104, 101, 116, 105, 99,
    1, 0, 10, 68, 101, 112, 114, 101, 99, 97, 116, 101, 100,
    0, 33, 0, 0, 0, 0, 0, 0,
    0, 1, 0, 0, 0, 1, 0, 1, 0, 1, 0, 2, 0, 0, 0, 0,
    0, 1, 0, 9, 0, 1, 0, 1, 0, 1,
    0, 1, 0, 0, 0, 19, 0, 0, 0, 0, 0, 0, 0, 1, 0xb1, 0, 0, 0, 1, 0, 3, 0, 0, 0, 0,
    0, 1, 0, 3, 0, 0, 0, 0]

end ClassFile

end ClassFormat
