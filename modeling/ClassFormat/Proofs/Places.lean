import ClassFormat.Proofs.Assembly
import ClassFormat.Proofs.Nesting.Attributes

/-!
# The places of attributes

An attribute that was read stands at an offset of the input, and so do the attributes of its method
body, if it has one. `Attribute.Placed.walk` goes through an attribute and all that lie in it: first
itself, then its own attributes in their order, each with what lies in it behind it. The places are
counted by sizes, and `Attribute.Placed.Stands` says that the attribute is written at its place.

Reading an attribute reports one event for each step of this walk and nothing else
(`Attribute.decodeWithin_reportsWalk`).
-/

set_option autoImplicit false
set_option relaxedAutoImplicit false

namespace ClassFormat.Attribute

open Decoder

variable {pool : ConstantPool} {input : List UInt8}

/-! ### Places -/

/-- An attribute and the offset of the input at which its header stands. -/
structure Placed where
  item : Attribute
  offset : Nat

/-- Where the bytes of an attribute end. -/
def Placed.stop (placed : Placed) : Nat :=
  placed.offset + placed.item.size

/-- What is reported of an attribute. -/
def Placed.event (placed : Placed) : Event :=
  .attributeBody placed.item.name (UInt32.ofNat placed.item.bodySize) placed.offset

/-- Attributes one behind the other, from an offset on. -/
def placedFrom (offset : Nat) : List Attribute → List Placed
  | [] => []
  | item :: items => ⟨item, offset⟩ :: placedFrom (offset + item.size) items

/-- The attributes of a method body, and none for an attribute of another kind. -/
def Placed.nested : Placed → List Placed
  | ⟨code body, offset⟩ =>
    placedFrom (offset + headSize body.instructions body.handlers) body.attributes
  | _ => []

mutual

/-- An attribute at an offset, and behind it the attributes that lie in it. -/
def walkFrom (offset : Nat) : Attribute → List Placed
  | code body => ⟨code body, offset⟩ :: walkCode offset body
  | item => [⟨item, offset⟩]

/-- The attributes that lie in a method body. -/
def walkCode (offset : Nat) : CodeBody Attribute → List Placed
  | ⟨_, _, instructions, handlers, attributes⟩ =>
    walkList (offset + headSize instructions handlers) attributes

/-- Several attributes one behind the other, each before those that lie in it. -/
def walkList (offset : Nat) : List Attribute → List Placed
  | [] => []
  | item :: items => walkFrom offset item ++ walkList (offset + item.size) items

end

/-- An attribute at its place, and behind it the attributes that lie in it. -/
def Placed.walk (placed : Placed) : List Placed :=
  walkFrom placed.offset placed.item

theorem walkList_eq (offset : Nat) (items : List Attribute) :
    walkList offset items = (placedFrom offset items).flatMap Placed.walk := by
  induction items generalizing offset with
  | nil => rfl
  | cons item items ih => rw [walkList, placedFrom, List.flatMap_cons, ih, Placed.walk]

/-- An attribute comes before those of its method body, and each of these before what lies in it. -/
theorem Placed.walk_eq (placed : Placed) :
    placed.walk = placed :: placed.nested.flatMap Placed.walk := by
  obtain ⟨item, offset⟩ := placed
  cases item with
  | code body =>
    obtain ⟨maxStack, maxLocals, instructions, handlers, attributes⟩ := body
    rw [walk, walkFrom, walkCode, walkList_eq]
    rfl
  | _ => rfl

/-! ### Ranges -/

theorem listSize_eq (items : List Attribute) : listSize items = (items.map size).sum := by
  induction items with
  | nil => rfl
  | cons item items ih => rw [listSize, ih, List.map_cons, List.sum_cons, size]

/-- An attribute `Code` ends with its own attributes. -/
theorem size_code (body : CodeBody Attribute) :
    (code body).size =
      headSize body.instructions body.handlers + (body.attributes.map size).sum := by
  obtain ⟨maxStack, maxLocals, instructions, handlers, attributes⟩ := body
  rw [size, bodySize, codeSize, listSize_eq]
  dsimp only [headSize]
  omega

theorem Placed.offset_lt_stop (placed : Placed) : placed.offset < placed.stop := by
  rw [stop, size]
  omega

@[simp] theorem map_item_placedFrom (offset : Nat) (items : List Attribute) :
    (placedFrom offset items).map Placed.item = items := by
  induction items generalizing offset with
  | nil => rfl
  | cons item items ih => rw [placedFrom, List.map_cons, ih]

theorem mem_placedFrom_within {offset : Nat} {items : List Attribute} {placed : Placed}
    (hplaced : placed ∈ placedFrom offset items) :
    offset ≤ placed.offset ∧ placed.stop ≤ offset + (items.map size).sum := by
  induction items generalizing offset with
  | nil => cases hplaced
  | cons item items ih =>
    rw [List.map_cons, List.sum_cons]
    rcases List.mem_cons.mp hplaced with rfl | hbehind
    · exact ⟨Nat.le_refl _, by dsimp only [Placed.stop]; omega⟩
    · obtain ⟨hoffset, hstop⟩ := ih hbehind
      omega

/-- Attributes one behind the other have no byte in common. -/
theorem pairwise_placedFrom (offset : Nat) (items : List Attribute) :
    (placedFrom offset items).Pairwise fun left right ↦ left.stop ≤ right.offset := by
  induction items generalizing offset with
  | nil => exact .nil
  | cons item items ih =>
    exact .cons (fun right hright ↦ (mem_placedFrom_within hright).1) (ih _)

/-- The attributes of a method body lie behind the header of the attribute that holds it, and end
where that attribute ends or before. -/
theorem Placed.nested_within {outer inner : Placed} (hinner : inner ∈ outer.nested) :
    outer.offset + 6 ≤ inner.offset ∧ inner.stop ≤ outer.stop := by
  obtain ⟨item, offset⟩ := outer
  cases item with
  | code body =>
    obtain ⟨hoffset, hstop⟩ := mem_placedFrom_within hinner
    have hsize := size_code body
    have hhead : 6 ≤ headSize body.instructions body.handlers := by
      rw [headSize]
      omega
    dsimp only [stop] at hstop ⊢
    omega
  | _ => cases hinner

theorem Placed.pairwise_nested (placed : Placed) :
    placed.nested.Pairwise fun left right ↦ left.stop ≤ right.offset := by
  obtain ⟨item, offset⟩ := placed
  cases item with
  | code body => exact pairwise_placedFrom _ _
  | _ => exact .nil

/-- What holds of an attribute if it holds of those of its method body holds of all. The induction
is on the size. -/
theorem Placed.induction {motive : Placed → Prop}
    (hstep : ∀ placed, (∀ inner ∈ placed.nested, motive inner) → motive placed)
    (placed : Placed) : motive placed := by
  generalize hsize : placed.item.size = count
  induction count using Nat.strongRecOn generalizing placed with
  | ind count ih =>
    refine hstep placed fun inner hinner ↦ ih inner.item.size ?_ inner rfl
    obtain ⟨hoffset, hstop⟩ := nested_within hinner
    rw [stop, stop] at hstop
    omega

/-- All that lies in an attribute lies within its bytes. -/
theorem Placed.mem_walk_within {outer inner : Placed} (hinner : inner ∈ outer.walk) :
    outer.offset ≤ inner.offset ∧ inner.stop ≤ outer.stop := by
  induction outer using Placed.induction with
  | hstep outer ih =>
    rw [walk_eq, List.mem_cons, List.mem_flatMap] at hinner
    obtain rfl | ⟨between, hbetween, hinner⟩ := hinner
    · exact ⟨Nat.le_refl _, Nat.le_refl _⟩
    · have hwithin := ih between hbetween hinner
      have hnested := nested_within hbetween
      omega

/-- Attributes without a byte in common are walked through in the order of their offsets, if each of
them is. -/
theorem pairwise_flatMap_walk {places : List Placed}
    (hdisjoint : places.Pairwise fun left right ↦ left.stop ≤ right.offset)
    (hwalks : ∀ placed ∈ places,
      placed.walk.Pairwise fun left right ↦ left.offset < right.offset) :
    (places.flatMap Placed.walk).Pairwise fun left right ↦ left.offset < right.offset := by
  refine List.pairwise_flatMap.mpr ⟨hwalks, hdisjoint.imp fun {left right} hbehind ↦ ?_⟩
  intro first hfirst second hsecond
  have hleft := Placed.mem_walk_within hfirst
  have hright := Placed.mem_walk_within hsecond
  have hlt := first.offset_lt_stop
  omega

/-- An attribute is walked through in the order of offsets. -/
theorem Placed.pairwise_walk (placed : Placed) :
    placed.walk.Pairwise fun left right ↦ left.offset < right.offset := by
  induction placed using Placed.induction with
  | hstep placed ih =>
    rw [walk_eq]
    refine .cons (fun inner hinner ↦ ?_) (pairwise_flatMap_walk placed.pairwise_nested ih)
    obtain ⟨between, hbetween, hinner⟩ := List.mem_flatMap.mp hinner
    have hwithin := mem_walk_within hinner
    have hnested := nested_within hbetween
    omega

/-! ### What stands at the places -/

/-- An attribute is written at its place in the input. -/
def Placed.Stands (pool : ConstantPool) (input : List UInt8) (placed : Placed) : Prop :=
  ∃ word ∈ placed.item.layout pool, word <+: input.drop placed.offset

theorem stands_of_sequence {items : List Attribute} {offset : Nat} {word : List UInt8}
    (hword : word ∈ sequence (layout pool) items) (hbegins : word <+: input.drop offset)
    {placed : Placed} (hplaced : placed ∈ placedFrom offset items) :
    placed.Stands pool input := by
  induction items generalizing offset word with
  | nil => cases hplaced
  | cons item items ih =>
    obtain ⟨first, hfirst, rest, hrest, rfl⟩ := Language.mem_mul.mp hword
    obtain ⟨hbefore, hbehind⟩ := append_prefix_iff.mp hbegins
    rcases List.mem_cons.mp hplaced with rfl | hplaced
    · exact ⟨first, hfirst, hbefore⟩
    · rw [List.drop_drop, length_of_mem_layout hfirst] at hbehind
      exact ih hrest hbehind hplaced

theorem Placed.Stands.nested {outer inner : Placed} (houter : outer.Stands pool input)
    (hinner : inner ∈ outer.nested) : inner.Stands pool input := by
  obtain ⟨item, offset⟩ := outer
  cases item with
  | code body =>
    obtain ⟨word, hword, hbegins⟩ := houter
    obtain ⟨head, rest, rfl, hhead, hrest⟩ := exists_head_of_mem_layout hword
    obtain ⟨-, hbehind⟩ := append_prefix_iff.mp hbegins
    rw [List.drop_drop, hhead] at hbehind
    exact stands_of_sequence hrest hbehind hinner
  | _ => cases hinner

/-- Where an attribute is written, all that lies in it is written at its place. -/
theorem Placed.Stands.walk {outer inner : Placed} (houter : outer.Stands pool input)
    (hinner : inner ∈ outer.walk) : inner.Stands pool input := by
  induction outer using Placed.induction with
  | hstep outer ih =>
    rw [walk_eq, List.mem_cons, List.mem_flatMap] at hinner
    obtain rfl | ⟨between, hbetween, hinner⟩ := hinner
    · exact houter
    · exact ih between hbetween (houter.nested hbetween) hinner

/-- At the place of an attribute stand the index of its name and the length of its body. -/
theorem Placed.Stands.header {placed : Placed} (hstands : placed.Stands pool input) :
    ∃ nameIndex length, Attribute.header nameIndex length <+: input.drop placed.offset ∧
      pool.utf8 nameIndex.toNat = .ok placed.item.kind.nameBytes ∧
      length.toNat = placed.item.bodySize := by
  obtain ⟨word, ⟨nameIndex, length, bytes, hbytes, hname, hlength, rfl⟩, hbegins⟩ := hstands
  refine ⟨nameIndex, length, (List.prefix_append _ _).trans hbegins, hname, ?_⟩
  rw [← hlength, length_of_mem_bodyLayout placed.item hbytes]

/-! ### What is reported -/

/-- An attribute that was read takes its size, whatever the depth of the cursor. -/
theorem advance_of_decodeWithin {levels : Nat} {state after : State} {item : Attribute}
    (hrun : decodeWithin pool levels state = .ok item after) :
    after.cursor = state.cursor.advance item.size ∧
      ∃ word ∈ item.layout pool, word <+: state.cursor.rest := by
  obtain ⟨word, ⟨-, hword⟩, hbegins, hcursor⟩ :=
    (decodeWithin_reads pool levels state item after.cursor rfl).mp ⟨after.log, hrun⟩
  exact ⟨length_of_mem_layout hword ▸ hcursor, word, hword, hbegins⟩

/-- The instructions of a method body are read without a report, and over as many bytes as they
take. -/
theorem instructions_eq_ok {length : UInt32} {overrun : Nat → DecodeError.Cause}
    {state after : State} {list : InstructionList}
    (hrun : bounded length.toNat overrun (InstructionList.decode length) state = .ok list after) :
    after = ⟨state.cursor.advance list.size, state.log⟩ := by
  obtain ⟨word, ⟨hsize, -, -⟩, -, hcursor⟩ :=
    (instructions_reads length overrun state list after.cursor rfl).mp ⟨after.log, hrun⟩
  cases htaken : state.cursor.take length.toNat with
  | error error =>
    rw [bounded_of_take_error htaken] at hrun
    cases hrun
  | ok taken =>
    obtain ⟨bytes, behind⟩ := taken
    obtain ⟨-, -, rfl⟩ := (Cursor.take_eq_ok_iff _ _ _ _).mp htaken
    rw [bounded_of_take_ok htaken] at hrun
    cases hinner : InstructionList.decode length ⟨state.cursor.window bytes, state.log⟩ with
    | error error inner =>
      rw [hinner] at hrun
      cases hrun
    | ok value inner =>
      have hsilent := InstructionList.decode_silent length _ _ _ hinner
      rw [hinner] at hrun
      cases hrun
      rw [hsize, hsilent]

/-- The handlers of a method body are read without a report, and over as many bytes as they
take. -/
theorem handlers_eq_ok {state after : State} {handlers : List ExceptionHandler}
    (hrun : counted ExceptionHandler.decode state = .ok handlers after) :
    after = ⟨state.cursor.advance (withCount ExceptionHandler.toBytes handlers).length,
      state.log⟩ := by
  obtain ⟨word, ⟨-, hword⟩, -, hafter⟩ := (ExceptionHandler.decode_reads.counted.eq_ok_iff
    (Plain.counted ExceptionHandler.decode_plain).forward.silent).mp hrun
  rw [sequence_exactly, mem_exactly_mul] at hword
  obtain ⟨_, rfl, rfl⟩ := hword
  exact hafter

/-- A decoder of attributes reports of each of them where it stands, and of what lies in it. -/
def ReportsWalk (nested : Decoder Attribute) : Prop :=
  ∀ state item after, nested state = .ok item after →
    after.cursor = state.cursor.advance item.size ∧
      after.log.toList =
        state.log.toList ++ (walkFrom state.cursor.absolute item).map Placed.event

variable {nested : Decoder Attribute}

theorem ReportsWalk.times (hnested : ReportsWalk nested) {count : Nat} {state after : State}
    {items : List Attribute} (hrun : Decoder.times count nested state = .ok items after) :
    after.log.toList =
      state.log.toList ++ (walkList state.cursor.absolute items).map Placed.event := by
  induction count generalizing state items with
  | zero =>
    rw [times_zero] at hrun
    cases hrun
    exact (List.append_nil _).symm
  | succ count ih =>
    rw [times_succ, bind_eq_ok_iff] at hrun
    obtain ⟨item, between, hitem, hrest⟩ := hrun
    obtain ⟨behind, _, hbehind, hend⟩ := bind_eq_ok_iff.mp hrest
    cases hend
    obtain ⟨hcursor, hlog⟩ := hnested state item between hitem
    rw [ih hbehind, hlog, hcursor, Cursor.advance_absolute, walkList, List.map_append,
      List.append_assoc]

/-- The attributes of a method body stand behind its instructions and handlers, and nothing else is
reported of it. -/
theorem log_of_decodeCode (hnested : ReportsWalk nested) {state after : State}
    {body : CodeBody Attribute} {offset : Nat} (hoffset : state.cursor.absolute = offset + 6)
    (hrun : decodeCode nested state = .ok body after) :
    after.log.toList = state.log.toList ++
      ((Placed.mk (code body) offset).nested.flatMap Placed.walk).map Placed.event := by
  simp only [decodeCode, bind_eq_ok_iff] at hrun
  obtain ⟨maxStack, _, hstack, maxLocals, _, hlocals, length, _, hlength, instructions, _,
    hinstructions, handlers, _, hhandlers, attributes, _, hattributes, hend⟩ := hrun
  cases hend
  obtain ⟨-, rfl⟩ := u2_eq_ok_iff.mp hstack
  obtain ⟨-, rfl⟩ := u2_eq_ok_iff.mp hlocals
  obtain ⟨-, rfl⟩ := u4_eq_ok_iff.mp hlength
  obtain rfl := instructions_eq_ok hinstructions
  obtain rfl := handlers_eq_ok hhandlers
  obtain ⟨count, _, hcount, htimes⟩ := bind_eq_ok_iff.mp hattributes
  obtain ⟨-, rfl⟩ := u2_eq_ok_iff.mp hcount
  have hlog := hnested.times htimes
  simp only [Cursor.advance_advance, Cursor.advance_absolute, hoffset] at hlog
  rw [hlog, walkList_eq, Placed.nested]
  dsimp only [headSize]
  congr 4
  omega

/-- Only `Code` has attributes, and the bodies of all other kinds are read without a report. -/
theorem log_of_decodeBody (hnested : ReportsWalk nested) {kind : Kind} {state after : State}
    {item : Attribute} (offset : Nat) (hoffset : state.cursor.absolute = offset + 6)
    (hrun : decodeBody nested kind state = .ok item after) :
    after.log.toList = state.log.toList ++
      ((Placed.mk item offset).nested.flatMap Placed.walk).map Placed.event := by
  by_cases hkind : kind = .code
  · subst hkind
    obtain ⟨body, between, hbody, hend⟩ := bind_eq_ok_iff.mp hrun
    cases hend
    exact log_of_decodeCode hnested hoffset hbody
  · have hsilent := (decodeBody_plain nested hkind).forward.silent _ _ _ hrun
    have hitem : item.kind = kind := decodeBody_yields nested kind _ _ _ hrun
    have hnone : (Placed.mk item offset).nested = [] := by
      cases item with
      | code body => exact absurd hitem.symm hkind
      | _ => rfl
    rw [hnone, hsilent, List.flatMap_nil, List.map_nil, List.append_nil]

/-- Reading an attribute reports one event for each step of the walk through it. The event of the
attribute itself comes before its body is read, so those of what lies in it stand behind. -/
theorem decodeWithin_reportsWalk (pool : ConstantPool) (levels : Nat) :
    ReportsWalk (decodeWithin pool levels) := by
  induction levels with
  | zero =>
    intro state item after hrun
    cases hrun
  | succ levels ih =>
    intro state item after hrun
    refine ⟨(advance_of_decodeWithin hrun).1, ?_⟩
    obtain ⟨word, hword, hbegins⟩ := (advance_of_decodeWithin hrun).2
    obtain ⟨nameIndex, length, body, hrest⟩ := header_of_decodeWithin hrun
    rw [decodeWithin_of_header hrest, bind_eq_ok_iff] at hrun
    obtain ⟨name, _, hresolve, hframed⟩ := hrun
    obtain ⟨-, rfl⟩ := resolve_eq_ok_iff.mp hresolve
    obtain ⟨kind, bytes, inner, rfl, hbytes, -, hbody, -, rfl⟩ := decodeFramed_eq_ok hframed
    have hitem : item.kind = kind := decodeBody_yields _ kind _ _ _ hbody
    have hsize : UInt32.ofNat item.bodySize = length := by
      obtain ⟨nameIndex', length', bytes', hbytes', -, hlength', rfl⟩ := hword
      rw [hrest] at hbegins
      obtain ⟨rest, hrest'⟩ := hbegins
      rw [List.append_assoc] at hrest'
      obtain ⟨-, rfl, -⟩ := header_append_inj hrest'
      rw [← length_of_mem_bodyLayout item hbytes', hlength', UInt32.ofNat_toNat]
    have hlog := log_of_decodeBody ih state.cursor.absolute
      (by rw [Cursor.window_absolute, Cursor.advance_absolute]) hbody
    have hwalk := (Placed.mk item state.cursor.absolute).walk_eq
    rw [Placed.walk] at hwalk
    rw [hlog, hwalk, List.map_cons, Placed.event, name, hitem, hsize, Array.toList_push,
      List.append_assoc, List.singleton_append]

end ClassFormat.Attribute
