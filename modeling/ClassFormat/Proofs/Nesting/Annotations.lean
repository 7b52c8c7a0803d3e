import ClassFormat.Proofs.Extension
import ClassFormat.Proofs.Layout.Annotations
import ClassFormat.Proofs.Nesting
import ClassFormat.Proofs.Plain.Decoders

/-!
# How deep values of annotations may lie

`ElementValue.Occurs` says of a value that it occurs inside another one, at which position in the
bytes, and how many lists and annotations enclose it there. A value that can be written is read
again if none that occurs in it is enclosed by more than 64, and otherwise the reading stops at the
first one that is enclosed by 65 (`ElementValue.decodeWithin_settles`). Values beside it, and how
deep other values lie, make no difference.

The main statement, `ElementValue.decode_within_limit`, says this of values, of elements and of
annotations, together with the converse.
-/

set_option autoImplicit false
set_option relaxedAutoImplicit false

namespace ClassFormat

open Decoder

namespace ElementValue

/-! ### Values that occur in others -/

/-- A value occurs in another one at a position of its bytes, and so many lists and annotations
enclose it. -/
inductive Occurs (inner : ElementValue) :
    (value : ElementValue) → (position enclosing : Nat) → Prop
  | here : Occurs inner inner 0 0
  | item {before after : List ElementValue} {value : ElementValue} {position enclosing : Nat}
    (hvalue : Occurs inner value position enclosing) :
    Occurs inner (array (before ++ value :: after))
      (3 + ((before.flatMap toBytes).length + position)) (enclosing + 1)
  | element {typeIndex : UInt16} {before after : List (Element ElementValue)}
    {element : Element ElementValue} {position enclosing : Nat}
    (hvalue : Occurs inner element.value position enclosing) :
    Occurs inner (nested typeIndex (before ++ element :: after))
      (5 + ((before.flatMap (Element.toBytes toBytes)).length + (2 + position))) (enclosing + 1)

/-- How many values a value holds directly. -/
def count : ElementValue → Nat
  | array values => values.length
  | nested _ elements => elements.length
  | _ => 0

/-- Whether a value can be written, at any depth: every count takes two bytes. -/
def Writable (value : ElementValue) : Prop :=
  ∀ inner position enclosing, Occurs inner value position enclosing → inner.count < 65536

/-- The positions of the values that so many lists and annotations enclose. -/
def positions (enclosing : Nat) (value : ElementValue) : Set Nat :=
  {position | ∃ inner, Occurs inner value position enclosing}

/-- A value that occurs in another one is found in its bytes. -/
theorem Occurs.toBytes_prefix {inner value : ElementValue} {position enclosing : Nat}
    (hinner : Occurs inner value position enclosing) :
    inner.toBytes <+: value.toBytes.drop position := by
  induction hinner with
  | here => exact List.prefix_rfl
  | @item before after value position enclosing hvalue ih =>
    have hbytes : (array (before ++ value :: after)).toBytes =
        (UInt8.ofNat '['.toNat :: BigEndian.ofNat 2 (before ++ value :: after).length) ++
          (before.flatMap toBytes ++ (value.toBytes ++ after.flatMap toBytes)) := by
      rw [toBytes, payload, listPayload_eq, List.flatMap_append, List.flatMap_cons]
      rfl
    have hhead : 3 = (UInt8.ofNat '['.toNat ::
        BigEndian.ofNat 2 (before ++ value :: after).length).length := by
      rw [List.length_cons, BigEndian.length_ofNat]
    rw [hbytes, hhead, ← List.drop_drop, List.drop_left, ← List.drop_drop, List.drop_left]
    exact ih.trans ((List.prefix_append _ _).drop position)
  | @element typeIndex before after element position enclosing hvalue ih =>
    have hbytes : (nested typeIndex (before ++ element :: after)).toBytes =
        (UInt8.ofNat '@'.toNat :: (BigEndian.ofUInt16 typeIndex ++
            BigEndian.ofNat 2 (before ++ element :: after).length)) ++
          (before.flatMap (Element.toBytes toBytes) ++
            (BigEndian.ofUInt16 element.nameIndex ++
              (element.value.toBytes ++ after.flatMap (Element.toBytes toBytes)))) := by
      rw [toBytes, payload, elementsPayload_eq, List.flatMap_append, List.flatMap_cons]
      simp [Element.toBytes, code]
    have hhead : 5 = (UInt8.ofNat '@'.toNat :: (BigEndian.ofUInt16 typeIndex ++
        BigEndian.ofNat 2 (before ++ element :: after).length)).length := by
      rw [List.length_cons, List.length_append, BigEndian.length_ofUInt16, BigEndian.length_ofNat]
    rw [hbytes, hhead, ← List.drop_drop, List.drop_left, ← List.drop_drop, List.drop_left,
      ← BigEndian.length_ofUInt16 element.nameIndex, ← List.drop_drop, List.drop_left]
    exact ih.trans ((List.prefix_append _ _).drop position)

/-- What encloses a value that lies deep is itself enclosed by any lower number. -/
theorem Occurs.nonempty_of_le {inner value : ElementValue} {position enclosing fewer : Nat}
    (hinner : Occurs inner value position enclosing) (hfewer : fewer ≤ enclosing) :
    (value.positions fewer).Nonempty := by
  induction hinner generalizing fewer with
  | here =>
    obtain rfl := Nat.le_zero.mp hfewer
    exact ⟨0, inner, .here⟩
  | item hvalue ih =>
    cases fewer with
    | zero => exact ⟨0, _, .here⟩
    | succ fewer =>
      obtain ⟨_, _, hother⟩ := ih (Nat.le_of_succ_le_succ hfewer)
      exact ⟨_, _, hother.item⟩
  | element hvalue ih =>
    cases fewer with
    | zero => exact ⟨0, _, .here⟩
    | succ fewer =>
      obtain ⟨_, _, hother⟩ := ih (Nat.le_of_succ_le_succ hfewer)
      exact ⟨_, _, hother.element⟩

theorem positions_zero (value : ElementValue) : value.positions 0 = {0} := by
  ext position
  constructor
  · rintro ⟨inner, hinner⟩
    cases hinner
    rfl
  · rintro rfl
    exact ⟨value, .here⟩

/-- Nothing lies within a value that holds no others. -/
theorem positions_of_count_eq_zero {value : ElementValue} (enclosing : Nat)
    (hcount : value.count = 0) : value.positions (enclosing + 1) = ∅ := by
  ext position
  refine ⟨fun ⟨inner, hinner⟩ ↦ ?_, False.elim⟩
  cases hinner <;> simp [count] at hcount

theorem positions_array (enclosing : Nat) (values : List ElementValue) :
    (array values).positions (enclosing + 1) =
      moved 3 (positionsIn toBytes (positions enclosing) values) := by
  ext position
  simp only [moved, Set.mem_image, mem_positionsIn_iff]
  constructor
  · rintro ⟨inner, hinner⟩
    cases hinner with
    | item hvalue => exact ⟨_, ⟨_, _, _, _, rfl, ⟨inner, hvalue⟩, rfl⟩, rfl⟩
  · rintro ⟨_, ⟨before, value, after, inside, rfl, ⟨inner, hinner⟩, rfl⟩, rfl⟩
    exact ⟨inner, hinner.item⟩

theorem positions_nested (enclosing : Nat) (typeIndex : UInt16)
    (elements : List (Element ElementValue)) :
    (nested typeIndex elements).positions (enclosing + 1) =
      moved 5 (positionsIn (Element.toBytes toBytes)
        (fun element ↦ moved 2 (element.value.positions enclosing)) elements) := by
  ext position
  simp only [moved, Set.mem_image, mem_positionsIn_iff]
  constructor
  · rintro ⟨inner, hinner⟩
    cases hinner with
    | element hvalue => exact ⟨_, ⟨_, _, _, _, rfl, ⟨_, ⟨inner, hvalue⟩, rfl⟩, rfl⟩, rfl⟩
  · rintro ⟨_, ⟨before, element, after, _, rfl, ⟨inside, ⟨inner, hinner⟩, rfl⟩, rfl⟩, rfl⟩
    exact ⟨inner, hinner.element⟩

/-! ### Reading -/

theorem writable_of_count_eq_zero {value : ElementValue} (hcount : value.count = 0) :
    value.Writable := by
  intro inner position enclosing hinner
  cases hinner with
  | here =>
    rw [hcount]
    exact Nat.zero_lt_succ _
  | item => simp [count] at hcount
  | element => simp [count] at hcount

theorem writable_array_iff {values : List ElementValue} :
    (array values).Writable ↔ values.length < 65536 ∧ ∀ value ∈ values, value.Writable := by
  constructor
  · intro hwritable
    refine ⟨hwritable _ _ _ .here, fun value hvalue inner position enclosing hinner ↦ ?_⟩
    obtain ⟨before, after, rfl⟩ := List.append_of_mem hvalue
    exact hwritable _ _ _ hinner.item
  · intro ⟨hlength, hvalues⟩ inner position enclosing hinner
    cases hinner with
    | here => exact hlength
    | item hinner => exact hvalues _ List.mem_append_cons_self _ _ _ hinner

theorem writable_nested_iff {typeIndex : UInt16} {elements : List (Element ElementValue)} :
    (nested typeIndex elements).Writable ↔
      elements.length < 65536 ∧ ∀ element ∈ elements, element.value.Writable := by
  constructor
  · intro hwritable
    refine ⟨hwritable _ _ _ .here, fun element helement inner position enclosing hinner ↦ ?_⟩
    obtain ⟨before, after, rfl⟩ := List.append_of_mem helement
    exact hwritable _ _ _ hinner.element
  · intro ⟨hlength, helements⟩ inner position enclosing hinner
    cases hinner with
    | here => exact hlength
    | element hinner => exact helements _ List.mem_append_cons_self _ _ _ hinner

end ElementValue

theorem Element.decode_settles {cause : DecodeError.Cause} {Value : Type} {item : Decoder Value}
    {bytes : Value → List UInt8} {deep : Value → Set Nat} {element : Element Value}
    (hitem : Settles cause item element.value (bytes element.value) (deep element.value)) :
    Settles cause (Element.decode item) element (element.toBytes bytes)
      (moved 2 (deep element.value)) :=
  .u2_bind (hitem.map _)

namespace ElementValue

/-- Reading a value that can be written. The induction is on the levels, each of which takes one
list or annotation off from around the values. -/
theorem decodeWithin_settles (levels : Nat) {value : ElementValue} (hwritable : value.Writable) :
    Settles (.nesting maxNesting) (decodeWithin levels) value value.toBytes
      (value.positions levels) := by
  induction levels generalizing value with
  | zero =>
    intro state _
    rw [positions_zero]
    exact .refused isLeast_singleton (Nat.zero_le _)
  | succ levels ih =>
    rw [toBytes]
    cases value with
    | constant tag index =>
      rw [positions_of_count_eq_zero levels rfl, payload, ← moved_empty 1]
      refine .tagged fun place ↦ ?_
      rw [code, (ElementTag.ofCode?_eq_some_iff tag.code tag).mpr rfl]
      exact (Settles.u2 index).map _
    | enumConstant typeIndex nameIndex =>
      rw [positions_of_count_eq_zero levels rfl, payload, ← moved_empty 1, ← moved_empty 2]
      exact .tagged fun place ↦ .u2_bind ((Settles.u2 nameIndex).map _)
    | classInfo index =>
      rw [positions_of_count_eq_zero levels rfl, payload, ← moved_empty 1]
      exact .tagged fun place ↦ (Settles.u2 index).map _
    | array values =>
      obtain ⟨hlength, hvalues⟩ := writable_array_iff.mp hwritable
      have hitems := Settles.counted hlength fun value hvalue ↦ ih (hvalues value hvalue)
      rw [positions_array, payload, listPayload_eq, ← moved_moved 1 2]
      exact .tagged fun place ↦ hitems.map _
    | nested typeIndex elements =>
      obtain ⟨hlength, helements⟩ := writable_nested_iff.mp hwritable
      have hitems := Settles.counted hlength fun element helement ↦
        Element.decode_settles (ih (helements element helement))
      rw [positions_nested, payload, elementsPayload_eq, ← moved_moved 1 4, ← moved_moved 2 2]
      exact .tagged fun place ↦ .u2_bind (hitems.map _)

/-- What fits within some levels can be written and does not lie deeper. -/
theorem Occurs.of_fitsWithin {inner value : ElementValue} {position enclosing levels : Nat}
    (hinner : Occurs inner value position enclosing) (hvalue : value.FitsWithin levels) :
    enclosing < levels ∧ inner.count < 65536 := by
  induction hinner generalizing levels with
  | here =>
    cases levels with
    | zero => exact absurd hvalue (by simp [FitsWithin])
    | succ levels =>
      refine ⟨Nat.zero_lt_succ _, ?_⟩
      cases inner with
      | array values => exact hvalue.1
      | nested typeIndex elements => exact hvalue.1
      | _ => exact Nat.zero_lt_succ _
  | item hinner ih =>
    cases levels with
    | zero => exact absurd hvalue (by simp [FitsWithin])
    | succ levels =>
      obtain ⟨henclosing, hcount⟩ := ih (hvalue.2 _ List.mem_append_cons_self)
      exact ⟨Nat.succ_lt_succ henclosing, hcount⟩
  | element hinner ih =>
    cases levels with
    | zero => exact absurd hvalue (by simp [FitsWithin])
    | succ levels =>
      obtain ⟨henclosing, hcount⟩ := ih (hvalue.2 _ List.mem_append_cons_self)
      exact ⟨Nat.succ_lt_succ henclosing, hcount⟩

theorem writable_of_fits {value : ElementValue} (hvalue : value.Fits) :
    value.Writable ∧ ∀ enclosing, (value.positions enclosing).Nonempty → enclosing ≤ 64 :=
  ⟨fun _ _ _ hinner ↦ (hinner.of_fitsWithin hvalue).2, fun _ ⟨_, _, hinner⟩ ↦
    Nat.le_of_lt_succ (hinner.of_fitsWithin hvalue).1⟩

theorem positions_nonempty_of_lt {value : ElementValue} {limit enclosing : Nat}
    (hdeep : (value.positions enclosing).Nonempty) (hlimit : limit < enclosing) :
    (value.positions (limit + 1)).Nonempty := by
  obtain ⟨_, _, hinner⟩ := hdeep
  exact hinner.nonempty_of_le hlimit

end ElementValue

/-! ### Elements and annotations -/

/-- The positions in an element of the values that so many lists and annotations enclose. -/
def Element.positions (enclosing : Nat) (element : Element ElementValue) : Set Nat :=
  moved 2 (element.value.positions enclosing)

namespace Annotation

/-- The positions in an annotation of the values that so many lists and annotations enclose. The
annotation itself is not counted. -/
def positions (enclosing : Nat) (item : Annotation) : Set Nat :=
  moved 4 (positionsIn (Element.toBytes ElementValue.toBytes) (Element.positions enclosing)
    item.elements)

/-- Whether an annotation can be written, at any depth. -/
def Writable (item : Annotation) : Prop :=
  item.elements.length < 65536 ∧ ∀ element ∈ item.elements, element.value.Writable

theorem positions_nonempty {enclosing : Nat} {item : Annotation} :
    (item.positions enclosing).Nonempty ↔
      ∃ element ∈ item.elements, (element.value.positions enclosing).Nonempty := by
  simp only [positions, moved_nonempty, positionsIn_nonempty, Element.positions]

theorem decode_settles {item : Annotation} (hwritable : item.Writable) :
    Settles (.nesting 64) Annotation.decode item item.toBytes (item.positions 65) := by
  have hitems := Settles.counted hwritable.1 fun element helement ↦ Element.decode_settles
    (ElementValue.decodeWithin_settles 65 (hwritable.2 element helement))
  rw [positions, ← moved_moved 2 2]
  exact .u2_bind (hitems.map _)

end Annotation

/-! ### The limit -/

theorem ElementValue.decode_readsNested :
    ReadsNested 64 ElementValue.decode toBytes Writable positions := by
  refine Settles.readsNested ?_ ?_ decode_plain.forward.silent (fun depth ↦ decode_reads) ?_
  · exact fun value hwritable ↦ decodeWithin_settles 65 hwritable
  · exact fun value enclosing hdeep hlimit ↦ positions_nonempty_of_lt hdeep hlimit
  · exact fun value hvalue ↦ writable_of_fits hvalue

theorem Element.decode_readsNested :
    ReadsNested 64 (Element.decode ElementValue.decode) (Element.toBytes ElementValue.toBytes)
      (fun element ↦ element.value.Writable) Element.positions := by
  refine Settles.readsNested ?_ ?_
    (Element.decode_plain ElementValue.decode_plain).forward.silent
    (fun depth ↦ Element.decode_reads ElementValue.decode_reads) ?_
  · exact fun element hwritable ↦
      Element.decode_settles (ElementValue.decodeWithin_settles 65 hwritable)
  · intro element enclosing hdeep hlimit
    exact moved_nonempty.mpr
      (ElementValue.positions_nonempty_of_lt (moved_nonempty.mp hdeep) hlimit)
  · intro element hvalue
    obtain ⟨hwritable, hwithin⟩ := ElementValue.writable_of_fits hvalue
    exact ⟨hwritable, fun enclosing hdeep ↦ hwithin enclosing (moved_nonempty.mp hdeep)⟩

theorem Annotation.decode_readsNested :
    ReadsNested 64 Annotation.decode Annotation.toBytes Annotation.Writable
      Annotation.positions := by
  refine Settles.readsNested ?_ ?_ Annotation.decode_plain.forward.silent
    (fun depth ↦ Annotation.decode_reads) ?_
  · exact fun item hwritable ↦ Annotation.decode_settles hwritable
  · intro item enclosing hdeep hlimit
    obtain ⟨element, helement, hvalue⟩ := Annotation.positions_nonempty.mp hdeep
    exact Annotation.positions_nonempty.mpr
      ⟨element, helement, ElementValue.positions_nonempty_of_lt hvalue hlimit⟩
  · intro item ⟨hlength, helements⟩
    have hvalues (element) (helement : element ∈ item.elements) :=
      ElementValue.writable_of_fits (helements element helement)
    refine ⟨⟨hlength, fun element helement ↦ (hvalues element helement).1⟩, ?_⟩
    intro enclosing hdeep
    obtain ⟨element, helement, hvalue⟩ := Annotation.positions_nonempty.mp hdeep
    exact (hvalues element helement).2 enclosing hvalue

/-- Values, elements and annotations are read exactly as they are written, up to 64 lists and
annotations around a value, wherever they stand and whatever is behind them. -/
theorem ElementValue.decode_within_limit :
    ReadsNested 64 ElementValue.decode toBytes Writable positions ∧
      ReadsNested 64 (Element.decode ElementValue.decode) (Element.toBytes toBytes)
        (fun element ↦ element.value.Writable) Element.positions ∧
      ReadsNested 64 Annotation.decode Annotation.toBytes Annotation.Writable
        Annotation.positions :=
  ⟨ElementValue.decode_readsNested, Element.decode_readsNested, Annotation.decode_readsNested⟩

namespace ElementValue

/-- Lists one inside the other around a class. -/
def chain : (count : Nat) → ElementValue
  | 0 => classInfo 0
  | count + 1 => array [chain count]

theorem chain_writable (count : Nat) : (chain count).Writable := by
  induction count with
  | zero => exact writable_of_count_eq_zero rfl
  | succ count ih =>
    exact writable_array_iff.mpr ⟨Nat.lt_of_sub_eq_succ rfl, List.forall_mem_singleton.mpr ih⟩

theorem chain_positions (count : Nat) : ((chain count).positions count).Nonempty := by
  induction count with
  | zero => exact ⟨0, _, .here⟩
  | succ count ih =>
    obtain ⟨_, inner, hinner⟩ := ih
    exact ⟨_, inner, @Occurs.item _ [] [] _ _ _ hinner⟩

/-- In a list of a class and 64 lists around a class, this second class lies too deep. It is refused
where it begins, behind the first class and the heads of all lists. -/
theorem decode_chain_behind_class :
    let value := array [classInfo 7, chain 64]
    let state : State := .start (.ofBytes (value.toBytes ++ [0xff]))
    IsLeast (value.positions 65) 198 ∧
      ∃ after, ElementValue.decode state = .error ⟨.nesting 64, 198⟩ after := by
  intro value state
  have hwritable : value.Writable := writable_array_iff.mpr ⟨by decide,
    List.forall_mem_cons.mpr ⟨writable_of_count_eq_zero rfl,
      List.forall_mem_singleton.mpr (chain_writable 64)⟩⟩
  have hdeep : (value.positions 65).Nonempty := by
    obtain ⟨_, inner, hinner⟩ := chain_positions 64
    exact ⟨_, inner, @Occurs.item _ [classInfo 7] [] _ _ _ hinner⟩
  have hbegins : value.toBytes <+: state.cursor.rest := List.prefix_append value.toBytes [0xff]
  obtain ⟨first, after, hleast, hfirst⟩ :=
    decode_within_limit.1.of_deep hwritable hbegins hdeep (by decide)
  obtain ⟨after', hrun⟩ : ∃ after, ElementValue.decode state = .error ⟨.nesting 64, 198⟩ after :=
    exists_error_of_answer (by decide +kernel)
  have hstart : state.cursor.absolute = 0 := rfl
  rw [hrun, hstart, Nat.zero_add] at hfirst
  injection hfirst with herror hafter
  injection herror with hcause hplace
  exact ⟨hplace ▸ hleast, after', hrun⟩

end ElementValue

end ClassFormat
