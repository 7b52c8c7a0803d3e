import ClassFormat.Proofs.Layout.ClassFile
import ClassFormat.Proofs.Places
import ClassFormat.Proofs.PoolSlots

/-!
# What decoding asks the constant pool for

Reading attributes asks the pool for nothing but the names of attributes. With two pools that hold
the same texts at the same indices reading ends in the same way (`Attribute.decode_alike`), and what
else the pools hold makes no difference. An attribute that was read with one pool is read with every
other that has its name and the names of all that lie in it, whatever this pool holds at the indices
within the attribute. `AsksForNames` says this of any reader of attributes.
-/

set_option autoImplicit false
set_option relaxedAutoImplicit false

namespace ClassFormat

namespace Decoder

variable {α β : Type}

/-! ### Runs that end alike -/

/-- Two runs end alike if they have the same result, or if a lookup failed in both, at the same
place and with the same left to read and the same reported so far. The reasons for which the lookups
failed may differ. -/
inductive EndAlike :
    EStateM.Result DecodeError State α → EStateM.Result DecodeError State α → Prop
  | same (result : EStateM.Result DecodeError State α) : EndAlike result result
  | lookup (reason reason' : LookupError) (place : Nat) (after : State) :
    EndAlike (.error ⟨.lookup reason, place⟩ after) (.error ⟨.lookup reason', place⟩ after)

/-- Two decoders whose runs end alike from every state. -/
def Alike (item item' : Decoder α) : Prop :=
  ∀ state, EndAlike (item state) (item' state)

namespace Alike

theorem refl (item : Decoder α) : Alike item item :=
  fun state ↦ .same (item state)

theorem bind {item item' : Decoder α} {next next' : α → Decoder β} (hitem : Alike item item')
    (hnext : ∀ value, Alike (next value) (next' value)) :
    Alike (item >>= next) (item' >>= next') := by
  intro state
  have hstate := hitem state
  show EndAlike (EStateM.bind item next state) (EStateM.bind item' next' state)
  unfold EStateM.bind
  generalize item state = result at hstate
  generalize item' state = result' at hstate
  cases hstate with
  | same =>
    cases result with
    | ok value after => exact hnext value after
    | error error after => exact .same _
  | lookup reason reason' place after => exact .lookup reason reason' place after

theorem times {item item' : Decoder α} (hitem : Alike item item') (count : Nat) :
    Alike (Decoder.times count item) (Decoder.times count item') := by
  induction count with
  | zero => exact refl _
  | succ count ih =>
    rw [times_succ, times_succ]
    exact .bind hitem fun _ ↦ .bind ih fun _ ↦ refl _

theorem counted {item item' : Decoder α} (hitem : Alike item item') :
    Alike (Decoder.counted item) (Decoder.counted item') :=
  .bind (refl u2) fun count ↦ hitem.times count.toNat

theorem measured {item item' : Decoder α} (hitem : Alike item item') :
    Alike (Decoder.measured item) (Decoder.measured item') :=
  .bind (refl position) fun _ ↦ .bind hitem fun _ ↦ refl _

/-- A failed lookup within a part of the input stays one: only running out of the part becomes
another error. -/
theorem bounded {item item' : Decoder α} (hitem : Alike item item') (length : Nat)
    (overrun : Nat → DecodeError.Cause) :
    Alike (Decoder.bounded length overrun item) (Decoder.bounded length overrun item') := by
  intro state
  unfold Decoder.bounded
  split
  · exact .same _
  next inner behind hinside =>
    have hinner := hitem ⟨inner, state.log⟩
    generalize item ⟨inner, state.log⟩ = result at hinner
    generalize item' ⟨inner, state.log⟩ = result' at hinner
    cases hinner with
    | same => exact .same _
    | lookup reason reason' place after => exact .lookup reason reason' place ⟨behind, after.log⟩

/-- Answers that are equal or both missing. -/
theorem resolve {answer answer' : Except LookupError α}
    (hanswer : answer.toOption = answer'.toOption) (place : Nat) :
    Alike (Decoder.resolve place answer) (Decoder.resolve place answer') := by
  intro state
  cases answer with
  | ok value =>
    cases answer' with
    | ok value' =>
      cases hanswer
      exact .same _
    | error reason' => cases hanswer
  | error reason =>
    cases answer' with
    | ok value' => cases hanswer
    | error reason' => exact .lookup reason reason' place state

end Alike

end Decoder

open Decoder

/-! ### Pools with the same texts -/

/-- At every index both pools hold the same text, or neither holds one. -/
def ConstantPool.SameTexts (pool pool' : ConstantPool) : Prop :=
  ∀ index, (pool.utf8 index).toOption = (pool'.utf8 index).toOption

namespace Attribute

variable {nested nested' : Decoder Attribute}

theorem decodeCode_alike (hnested : Alike nested nested') :
    Alike (decodeCode nested) (decodeCode nested') :=
  .bind (.refl _) fun _ ↦ .bind (.refl _) fun _ ↦ .bind (.refl _) fun _ ↦ .bind (.refl _) fun _ ↦
    .bind (.refl _) fun _ ↦ .bind hnested.counted fun _ ↦ .refl _

/-- Only the body of a method holds attributes. -/
theorem decodeBody_congr {kind : Kind} (hkind : kind ≠ .code) (nested nested' : Decoder Attribute) :
    decodeBody nested kind = decodeBody nested' kind := by
  cases kind with
  | code => exact absurd rfl hkind
  | _ => rfl

theorem decodeBody_alike (hnested : Alike nested nested') (kind : Kind) :
    Alike (decodeBody nested kind) (decodeBody nested' kind) := by
  by_cases hkind : kind = .code
  · subst hkind
    exact .bind (decodeCode_alike hnested) fun _ ↦ .refl _
  · rw [decodeBody_congr hkind nested nested']
    exact .refl _

theorem decodeFramed_alike (hnested : Alike nested nested') (start : Nat) (name : List UInt8)
    (length : UInt32) :
    Alike (decodeFramed nested start name length) (decodeFramed nested' start name length) := by
  refine .bounded (.bind (.refl _) fun _ ↦ ?_) _ _
  split
  · exact .refl _
  · exact .bind (decodeBody_alike hnested _).measured fun _ ↦ .refl _

variable {pool pool' : ConstantPool}

theorem decodeWithin_alike (htexts : pool.SameTexts pool') (levels : Nat) :
    Alike (decodeWithin pool levels) (decodeWithin pool' levels) := by
  induction levels with
  | zero => exact .refl _
  | succ levels ih =>
    exact .bind (.refl _) fun start ↦ .bind (.refl _) fun nameIndex ↦ .bind (.refl _) fun length ↦
      .bind (.resolve (htexts nameIndex.toNat) start) fun name ↦
        decodeFramed_alike ih start name length

theorem decode_alike (htexts : pool.SameTexts pool') : Alike (decode pool) (decode pool') :=
  .bind (.refl _) fun _ ↦ decodeWithin_alike htexts _

end Attribute

theorem Attributes.decode_alike {pool pool' : ConstantPool} (htexts : pool.SameTexts pool') :
    Alike (Attributes.decode (some pool)) (Attributes.decode (some pool')) :=
  (Attribute.decode_alike htexts).counted

theorem Member.decode_alike {declared : Declared} {pool pool' : ConstantPool}
    (htexts : pool.SameTexts pool') :
    Alike (Member.decode (some pool) : Decoder (Member declared)) (Member.decode (some pool')) :=
  .bind (.refl _) fun _ ↦ .bind (.refl _) fun _ ↦ .bind (.refl _) fun _ ↦
    .bind (Attributes.decode_alike htexts) fun _ ↦ .refl _

/-! ### Pools with the names that are needed -/

namespace Attribute

variable {pool pool' : ConstantPool} {input : List UInt8}

/-- Where one of the given attributes stands, or one that lies in them, the header gives an index at
which the pool has the name of the attribute. -/
def HasNames (pool : ConstantPool) (input : List UInt8) (places : List Placed) : Prop :=
  ∀ placed ∈ places.flatMap Placed.walk, ∀ nameIndex length,
    header nameIndex length <+: input.drop placed.offset →
      pool.utf8 nameIndex.toNat = .ok placed.item.kind.nameBytes

theorem HasNames.mono {places places' : List Placed} (h : HasNames pool input places)
    (hsub : ∀ inner ∈ places'.flatMap Placed.walk, inner ∈ places.flatMap Placed.walk) :
    HasNames pool input places' :=
  fun inner hinner ↦ h inner (hsub inner hinner)

theorem mem_sequence_of_placedFrom {items : List Attribute} {offset : Nat} {word : List UInt8}
    (hword : word ∈ sequence (layout pool) items) (hbegins : word <+: input.drop offset)
    (hitems : ∀ placed ∈ placedFrom offset items, ∀ word ∈ placed.item.layout pool,
      word <+: input.drop placed.offset → word ∈ placed.item.layout pool') :
    word ∈ sequence (layout pool') items := by
  induction items generalizing offset word with
  | nil => exact hword
  | cons item items ih =>
    obtain ⟨first, hfirst, rest, hrest, rfl⟩ := Language.mem_mul.mp hword
    obtain ⟨hbefore, hbehind⟩ := append_prefix_iff.mp hbegins
    rw [List.drop_drop, length_of_mem_layout hfirst] at hbehind
    refine Language.mem_mul.mpr ⟨first, ?_, rest, ?_, rfl⟩
    · exact hitems ⟨item, offset⟩ List.mem_cons_self first hfirst hbefore
    · exact ih hrest hbehind fun placed hplaced ↦ hitems placed (List.mem_cons_of_mem _ hplaced)

/-- An attribute is written in the same way over every pool that has the names. The induction goes
from an attribute to those of its method body. -/
theorem mem_layout_of_hasNames (placed : Placed) {word : List UInt8}
    (hword : word ∈ placed.item.layout pool) (hbegins : word <+: input.drop placed.offset)
    (hnames : HasNames pool' input [placed]) : word ∈ placed.item.layout pool' := by
  induction placed using Placed.induction generalizing word with
  | hstep placed ih =>
    rw [HasNames, List.flatMap_singleton, Placed.walk_eq] at hnames
    obtain ⟨hself, hinner⟩ := List.forall_mem_cons.mp hnames
    obtain ⟨nameIndex, length, bytes, hbytes, -, hlength, rfl⟩ := hword
    obtain ⟨hheader, hbehind⟩ := append_prefix_iff.mp hbegins
    refine ⟨nameIndex, length, bytes, ?_, hself nameIndex length hheader, hlength, rfl⟩
    obtain ⟨item, offset⟩ := placed
    cases item with
    | code body =>
      obtain ⟨head, rest, rfl, hhead, hrest, hrebuild⟩ := exists_head_of_mem_codeLayout hbytes
      obtain ⟨-, hrestBegins⟩ := append_prefix_iff.mp hbehind
      rw [List.drop_drop, List.drop_drop, length_header, hhead] at hrestBegins
      refine hrebuild pool' (mem_sequence_of_placedFrom hrest hrestBegins ?_)
      intro nested hnested word hword hbegins
      refine ih nested hnested hword hbegins fun inner hwalk ↦ hinner inner ?_
      rw [List.flatMap_singleton] at hwalk
      exact List.mem_flatMap.mpr ⟨nested, hnested, hwalk⟩
    | _ => exact hbytes

/-- An attribute that was read with one pool is read with every other that has the names. -/
theorem decodeWithin_of_hasNames {levels : Nat} {state after : State} {item : Attribute}
    {offset : Nat} (hrest : state.cursor.rest = input.drop offset)
    (hrun : decodeWithin pool levels state = .ok item after)
    (hnames : HasNames pool' input [⟨item, offset⟩]) :
    decodeWithin pool' levels state = .ok item after := by
  obtain ⟨word, ⟨hfits, hword⟩, hbegins, hcursor⟩ :=
    (decodeWithin_reads pool levels state item after.cursor rfl).mp ⟨after.log, hrun⟩
  have hword' := mem_layout_of_hasNames ⟨item, offset⟩ hword (hrest ▸ hbegins) hnames
  obtain ⟨log, hrun'⟩ := (decodeWithin_reads pool' levels state item after.cursor rfl).mpr
    ⟨word, ⟨hfits, hword'⟩, hbegins, hcursor⟩
  have hlog := (decodeWithin_reportsWalk pool levels state item after hrun).2
  have hlog' := (decodeWithin_reportsWalk pool' levels state item _ hrun').2
  have hsame : log = after.log := Array.toList_inj.mp (hlog'.trans hlog.symm)
  rw [hrun', hsame]

theorem decode_of_hasNames {state after : State} {item : Attribute} {offset : Nat}
    (hrest : state.cursor.rest = input.drop offset) (hrun : decode pool state = .ok item after)
    (hnames : HasNames pool' input [⟨item, offset⟩]) : decode pool' state = .ok item after := by
  rw [decode, bind_of_ok (depth_run state)] at hrun ⊢
  exact decodeWithin_of_hasNames hrest hrun hnames

theorem times_of_hasNames {count : Nat} {state after : State} {items : List Attribute}
    {offset : Nat} (hrest : state.cursor.rest = input.drop offset)
    (hrun : times count (decode pool) state = .ok items after)
    (hnames : HasNames pool' input (placedFrom offset items)) :
    times count (decode pool') state = .ok items after := by
  induction count generalizing state items offset with
  | zero => exact hrun
  | succ count ih =>
    rw [times_succ, bind_eq_ok_iff] at hrun ⊢
    obtain ⟨item, between, hitem, hmore⟩ := hrun
    obtain ⟨behind, _, hbehind, hend⟩ := bind_eq_ok_iff.mp hmore
    cases hend
    rw [placedFrom] at hnames
    have hfirst := decode_of_hasNames hrest hitem (hnames.mono fun inner hinner ↦
      List.mem_append_left _ (by simpa using hinner))
    have hbetween : between.cursor.rest = input.drop (offset + item.size) := by
      rw [decode, bind_of_ok (depth_run state)] at hitem
      rw [(advance_of_decodeWithin hitem).1, Cursor.advance_rest, hrest, List.drop_drop]
    refine ⟨item, between, hfirst, bind_eq_ok_iff.mpr ⟨behind, _, ?_, rfl⟩⟩
    exact ih hbetween hbehind (hnames.mono fun inner hinner ↦
      List.mem_append_right _ hinner)

end Attribute

open Attribute

/-! ### Readers -/

/-- The pool is asked for nothing but names by a reader of values in which attributes stand at the
given places, counted from where the reader starts. -/
structure AsksForNames {α : Type} (read : ConstantPool → Decoder α) (places : α → List Placed)
    (layout : ConstantPool → α → Language UInt8) : Prop where
  /-- With the same texts in the pool every run ends alike, whatever else the pool holds. -/
  alike : ∀ pool pool' : ConstantPool, pool.SameTexts pool' → Alike (read pool) (read pool')
  /-- What is read with one pool is read with every other that has the names of its attributes,
  whatever this pool holds at the indices in their bodies. -/
  of_hasNames : ∀ pool pool' state value after, read pool state = .ok value after →
    HasNames pool' state.cursor.rest (places value) → read pool' state = .ok value after
  /-- What is read is written with the bytes that it was read from, so its indices are those that
  stand there. -/
  kept : ∀ pool state value after, read pool state = .ok value after →
    ∃ word ∈ layout pool value, word <+: state.cursor.rest ∧
      after.cursor = state.cursor.advance word.length

theorem Attribute.decode_asksForNames :
    AsksForNames Attribute.decode (fun item ↦ [⟨item, 0⟩]) Attribute.layout where
  alike _ _ := Attribute.decode_alike
  of_hasNames _ _ _ _ _ := Attribute.decode_of_hasNames List.drop_zero.symm
  kept pool state item after hrun := by
    obtain ⟨word, ⟨-, hword⟩, hrest⟩ :=
      (Attribute.decode_reads pool state item after.cursor rfl).mp ⟨after.log, hrun⟩
    exact ⟨word, hword, hrest⟩

/-- The attributes of a table stand behind their count, and the table may stand behind more. -/
theorem Attributes.decode_of_hasNames {pool pool' : ConstantPool} {input : List UInt8}
    {state after : State} {attributes : Attributes} {offset : Nat}
    (hrest : state.cursor.rest = input.drop offset)
    (hrun : Attributes.decode (some pool) state = .ok attributes after)
    (hnames : HasNames pool' input (placedFrom (offset + 2) attributes)) :
    Attributes.decode (some pool') state = .ok attributes after := by
  obtain ⟨count, between, hcount, htimes⟩ := bind_eq_ok_iff.mp hrun
  refine bind_eq_ok_iff.mpr ⟨count, between, hcount, times_of_hasNames ?_ htimes hnames⟩
  obtain ⟨-, rfl⟩ := u2_eq_ok_iff.mp hcount
  rw [Cursor.advance_rest, hrest, List.drop_drop]

/-- A table may be read at any depth, and its attributes have fewer levels left within parts of the
input. -/
theorem Attributes.decode_reads_within (pool : ConstantPool) (depth : Nat) :
    Reads depth (Attributes.decode (some pool)) fun attributes ↦
      provided (attributes.length < 65536 ∧
        ∀ item ∈ attributes, item.FitsWithin (maxNesting + 1 - depth)) (attributes.layout pool) :=
  (Attribute.decode_reads pool).counted.congr fun attributes word ↦ by
    simp [layout, sequence_provided, and_assoc]

theorem Attributes.decode_asksForNames :
    AsksForNames (fun pool ↦ Attributes.decode (some pool)) (placedFrom 2) Attributes.layout where
  alike _ _ := Attributes.decode_alike
  of_hasNames _ _ _ _ _ hrun hnames := by
    refine Attributes.decode_of_hasNames List.drop_zero.symm hrun ?_
    rwa [Nat.zero_add]
  kept pool state attributes after hrun := by
    obtain ⟨word, ⟨-, hword⟩, hrest⟩ := (Attributes.decode_reads_within pool _ state attributes
      after.cursor rfl).mp ⟨after.log, hrun⟩
    exact ⟨word, hword, hrest⟩

/-- The attributes of a member stand behind three indices and their count. -/
theorem Member.decode_asksForNames {declared : Declared} :
    AsksForNames (fun pool ↦ (Member.decode (some pool) : Decoder (Member declared)))
      (fun member ↦ placedFrom 8 member.attributes) Member.layout where
  alike _ _ := Member.decode_alike
  of_hasNames pool pool' state member after hrun hnames := by
    simp only [Member.decode, bind_eq_ok_iff] at hrun ⊢
    obtain ⟨bits, _, hbits, name, _, hname, descriptor, between, hdescriptor, attributes, _,
      hattributes, hend⟩ := hrun
    cases hend
    refine ⟨bits, _, hbits, name, _, hname, descriptor, between, hdescriptor, attributes, _,
      ?_, rfl⟩
    obtain ⟨-, rfl⟩ := u2_eq_ok_iff.mp hbits
    obtain ⟨-, rfl⟩ := u2_eq_ok_iff.mp hname
    obtain ⟨-, rfl⟩ := u2_eq_ok_iff.mp hdescriptor
    exact Attributes.decode_of_hasNames (by simp) hattributes hnames
  kept pool state member after hrun := by
    have hreads : Reads state.cursor.depth (Member.decode (some pool))
      fun member : Member declared ↦
        provided (member.attributes.length < 65536 ∧ ∀ item ∈ member.attributes,
          item.FitsWithin (maxNesting + 1 - state.cursor.depth)) (member.layout pool) := by
      refine (Reads.u2.bind fun bits ↦ Reads.u2.bind fun nameIndex ↦ Reads.u2.bind fun index ↦
        (Attributes.decode_reads_within pool _).bind fun attributes ↦ .pure _).congr
          fun member word ↦ ?_
      obtain ⟨⟨bits⟩, nameIndex, descriptorIndex, attributes⟩ := member
      simp [Member.layout, Language.mem_iSup, and_assoc]
    obtain ⟨word, ⟨-, hword⟩, hrest⟩ := (hreads state member after.cursor rfl).mp ⟨after.log, hrun⟩
    exact ⟨word, hword, hrest⟩

/-- Reading attributes, tables of attributes and members asks the pool for nothing but the names of
the attributes. -/
theorem readers_ask_for_names :
    AsksForNames Attribute.decode (fun item ↦ [⟨item, 0⟩]) Attribute.layout ∧
      AsksForNames (fun pool ↦ Attributes.decode (some pool)) (placedFrom 2) Attributes.layout ∧
        ∀ declared, AsksForNames
          (fun pool ↦ (Member.decode (some pool) : Decoder (Member declared)))
          (fun member ↦ placedFrom 8 member.attributes) Member.layout :=
  ⟨Attribute.decode_asksForNames, Attributes.decode_asksForNames, fun _ ↦
    Member.decode_asksForNames⟩

/-- The pool of the name of an attribute `ConstantValue` and of further constants. -/
def ConstantPool.withConstantValue (constants : List Constant) : ConstantPool :=
  .ofConstants (.utf8 Kind.constantValue.nameBytes :: constants)

/-- An attribute `ConstantValue` whose value has no slot, the constant of a field whose class is
missing, or a text at its index is read in the same way. -/
theorem constantValue_asks_for_names :
    let missing := ConstantPool.withConstantValue []
    let dangling := ConstantPool.withConstantValue [.fieldRef 9 9]
    let text := ConstantPool.withConstantValue [.utf8 [120]]
    let state : State := .start (.ofBytes [0, 1, 0, 0, 0, 2, 0, 2])
    missing.SameTexts dangling ∧ ¬missing.SameTexts text ∧
      Alike (Attribute.decode missing) (Attribute.decode dangling) ∧
        ∃ after, Attribute.decode missing state = .ok (.constantValue 2) after ∧
          Attribute.decode text state = .ok (.constantValue 2) after := by
  intro missing dangling text state
  have hsame : missing.SameTexts dangling := by
    intro index
    rcases index with _ | _ | _ | index
    · rfl
    · rfl
    · rfl
    · have hmissing : missing.size ≤ index + 3 := Nat.le_add_left 2 (index + 1)
      have hdangling : dangling.size ≤ index + 3 := Nat.le_add_left 3 index
      rw [ConstantPool.utf8, ConstantPool.utf8, ConstantPool.constant_of_size_le (.inr hmissing),
        ConstantPool.constant_of_size_le (.inr hdangling)]
      rfl
  have hother : ¬missing.SameTexts text := fun h ↦ by cases h 2
  obtain ⟨hitem, -, -⟩ := readers_ask_for_names
  refine ⟨hsame, hother, hitem.alike _ _ hsame, _, rfl, hitem.of_hasNames missing _ _ _ _ rfl ?_⟩
  intro placed hplaced nameIndex length hheader
  rw [List.flatMap_singleton, Placed.walk_eq, List.mem_cons] at hplaced
  obtain rfl | hnested := hplaced
  · obtain ⟨behind, hbytes⟩ := hheader
    have hsplit : header nameIndex length ++ behind = header 1 2 ++ [0, 2] := hbytes
    obtain ⟨rfl, -, -⟩ := header_append_inj hsplit
    rfl
  · cases hnested

end ClassFormat
