import ClassFormat.ClassFile
import ClassFormat.Proofs.Plain.Decoders
import ClassFormat.Proofs.Simulation

/-!
# Every decoder keeps together with itself

Whatever the simulation is, runs of a decoder from states that go together give results that go
together. For plain decoders this is `Decoder.Plain.relates`; here are the others. Nothing depends
on what the inputs have in common, so the comparisons of runs are all instances of
`ClassFile.decode_relates` and `Attribute.decode_relates`.
-/

set_option autoImplicit false
set_option relaxedAutoImplicit false

namespace ClassFormat

open Simulation

variable (sim : Simulation)

/-! ### Pools and instructions -/

theorem ConstantPool.decodeOnto_relates (left : Nat) (slots : Array (Option Constant)) :
    sim.Relates (decodeOnto left slots) (decodeOnto left slots) := by
  induction left using Nat.strongRecOn generalizing slots with
  | ind left ih =>
    cases left with
    | zero => exact .pure slots
    | succ left =>
      unfold decodeOnto
      refine .offset_bind fun start ↦ .bind (Constant.decode_plain.relates sim) fun constant ↦ ?_
      split
      · cases left with
        | zero => exact .failAt start rfl
        | succ left => exact ih left (by omega) _
      · exact ih left (by omega) _

theorem ConstantPool.decode_relates : sim.Relates ConstantPool.decode ConstantPool.decode :=
  .bind .u2 fun count ↦ .bind (decodeOnto_relates sim (count.toNat - 1) #[none]) fun slots ↦
    .bind (.record (.pool slots.size)) fun _ ↦ .pure _

theorem InstructionList.decodeOnto_relates (length : UInt32) (address : Nat)
    (done : List Instruction) :
    sim.Relates (decodeOnto length address done) (decodeOnto length address done) := by
  induction address, done using decodeOnto.induct length with
  | case1 address done hbefore ih =>
    rw [decodeOnto, if_pos hbefore]
    exact .bind (Opcode.decode_plain.relates sim) fun opcode ↦
      .bind (.measured ((Operands.decode_plain address opcode.form).relates sim)) fun sized ↦
        ih opcode sized.1 sized.2
  | case2 done hbefore =>
    rw [decodeOnto, if_neg hbefore, if_pos rfl]
    exact .pure _
  | case3 address done hbefore hend =>
    rw [decodeOnto, if_neg hbefore, if_neg hend]
    exact .fail rfl

theorem InstructionList.decode_relates (length : UInt32) :
    sim.Relates (InstructionList.decode length) (InstructionList.decode length) :=
  decodeOnto_relates sim length 0 []

/-! ### Attributes -/

namespace Attribute

variable {nested nested' : Decoder Attribute}

theorem decodeCode_relates (hnested : sim.Relates nested nested') :
    sim.Relates (decodeCode nested) (decodeCode nested') :=
  .bind .u2 fun _ ↦ .bind .u2 fun _ ↦ .bind .u4 fun length ↦
    .bind (.bounded length.toNat (InstructionList.decode_relates _ length) fun _ ↦ rfl) fun _ ↦
      .bind (.counted (ExceptionHandler.decode_plain.relates sim)) fun _ ↦
        .bind (.counted hnested) fun _ ↦ .pure _

/-- Bodies keep together if the attributes within them do, which may be read in two ways. -/
theorem decodeBody_relates (hnested : sim.Relates nested nested') (kind : Kind) :
    sim.Relates (decodeBody nested kind) (decodeBody nested' kind) := by
  by_cases hkind : kind = .code
  · subst hkind
    exact .bind (decodeCode_relates sim hnested) fun _ ↦ .pure _
  · have hsame : decodeBody nested kind = decodeBody nested' kind := by
      cases kind with
      | code => exact absurd rfl hkind
      | _ => rfl
    rw [hsame]
    exact (decodeBody_plain nested' hkind).relates sim

theorem decodeFramed_relates
    (hnested : sim.inside.Relates nested nested) (start : Nat)
    (name : List UInt8) (length : UInt32) :
    sim.Relates (decodeFramed nested start name length)
      (decodeFramed nested (start + sim.shift) name length) := by
  refine .bounded length.toNat (.bind (.record _) fun _ ↦ ?_) fun _ ↦ rfl
  cases Kind.ofNameBytes? name with
  | none => exact .failAt start rfl
  | some kind =>
    refine .bind (.measured (decodeBody_relates _ hnested kind)) fun sized ↦
      .bind .remaining fun left ↦ ?_
    split_ifs
    · exact .pure _
    · exact .fail rfl

/-- Attributes keep together to any depth, in any simulation: the bodies that they lie in are read
under another one, so the induction is on the levels for all simulations at once. -/
theorem decodeWithin_relates (pool : ConstantPool) (levels : Nat) :
    sim.Relates (decodeWithin pool levels) (decodeWithin pool levels) := by
  induction levels generalizing sim with
  | zero => exact .fail rfl
  | succ levels ih =>
    exact .offset_bind fun start ↦ .bind .u2 fun nameIndex ↦ .bind .u4 fun length ↦
      .bind (.resolve start _) fun name ↦ decodeFramed_relates sim (ih _) start name length

theorem decode_relates (pool : ConstantPool) :
    sim.Relates (Attribute.decode pool) (Attribute.decode pool) :=
  .bind .depth fun depth ↦ decodeWithin_relates sim pool (maxNesting + 1 - depth)

end Attribute

/-! ### The levels of attributes

How many levels an attribute has left is known from the depth of the cursor that it is read through,
so attributes in a body are read in the way in which they are read for themselves. -/

/-- One input twice, through cursors of one depth. -/
def Simulation.atDepth (depth : Nat) : Simulation where
  cursors left right := left.depth = depth ∧ right = left
  shift := 0
  lead := 0
  errors := Eq
  gap _ := False
  logs := Eq
  absolute_eq hsame := hsame.2 ▸ rfl
  position_eq hsame := hsame.2 ▸ rfl
  depth_eq hsame := hsame.2 ▸ rfl
  errors_moved _ := rfl
  logs_push event hlogs := by rw [hlogs, Event.moved_zero]
  take_together := by
    rintro cursor _ count ⟨hdepth, rfl⟩
    cases htaken : Cursor.take _ count with
    | error error => exact .error rfl
    | ok taken =>
      obtain ⟨bytes, behind⟩ := taken
      obtain ⟨-, -, rfl⟩ := (Cursor.take_eq_ok_iff _ _ _ _).mp htaken
      exact .ok ⟨hdepth, rfl⟩

namespace Attribute

variable {pool : ConstantPool} {levels : Nat} {state : Decoder.State}

theorem decodeWithin_relates_decode (pool : ConstantPool) {depth : Nat}
    (hlevels : levels = maxNesting + 1 - depth) :
    (Simulation.atDepth depth).Relates (decodeWithin pool levels) (Attribute.decode pool) := by
  intro left right hstates
  have hdepth : right.cursor.depth = depth := by
    rw [hstates.cursors.2, hstates.cursors.1]
  have hdecode : Attribute.decode pool right = decodeWithin pool levels right := by
    rw [hlevels, ← hdepth]
    rfl
  rw [hdecode]
  exact decodeWithin_relates _ pool levels left right hstates

/-- In a body, too, an attribute is read with the levels that its cursor has left. -/
theorem decodeBody_decodeWithin (kind : Kind)
    (hlevels : levels = maxNesting + 1 - state.cursor.depth) :
    decodeBody (decodeWithin pool levels) kind state =
      decodeBody (Attribute.decode pool) kind state := by
  have hrelates := decodeBody_relates _ (decodeWithin_relates_decode pool hlevels) kind
  have hsame := hrelates.run_eq_mapped id id
    (fun left right hstates ↦ congrArg₂ Decoder.State.mk hstates.cursors.2 (Eq.symm hstates.logs))
    (fun _ _ herrors ↦ Eq.symm herrors) (fun _ hgap ↦ hgap) ⟨⟨rfl, rfl⟩, rfl⟩
  generalize decodeBody (decodeWithin pool levels) kind state = result at hsame ⊢
  cases result <;> exact hsame.symm

end Attribute

theorem Attributes.decode_relates (pool : Option ConstantPool) :
    sim.Relates (Attributes.decode pool) (Attributes.decode pool) := by
  cases pool with
  | some pool => exact .counted (Attribute.decode_relates sim pool)
  | none => exact .fail rfl

/-! ### Class files -/

theorem Member.decode_relates {declared : Declared} (pool : Option ConstantPool) :
    sim.Relates (Member.decode pool : Decoder (Member declared)) (Member.decode pool) :=
  .bind .u2 fun _ ↦ .bind .u2 fun _ ↦ .bind .u2 fun _ ↦
    .bind (Attributes.decode_relates sim pool) fun _ ↦ .pure _

theorem ClassFile.decodeMagic_relates :
    sim.Relates ClassFile.decodeMagic ClassFile.decodeMagic := by
  refine .offset_bind fun start ↦ .bind .u4 fun found ↦ ?_
  split_ifs
  · exact .pure ()
  · exact .failAt start rfl

/-- A whole class file keeps together with itself. -/
theorem ClassFile.decode_relates : sim.Relates ClassFile.decode ClassFile.decode :=
  .bind (decodeMagic_relates sim) fun _ ↦ .bind .u2 fun minor ↦ .bind .u2 fun major ↦
    .bind (.record (.version major minor)) fun _ ↦
      .bind (ConstantPool.decode_relates sim) fun pool ↦
        .bind .u2 fun _ ↦ .bind .u2 fun _ ↦ .bind .u2 fun _ ↦
          .bind .u2 fun interfaces ↦ .bind (.times .u2 interfaces.toNat) fun _ ↦
            .bind .u2 fun fields ↦
              .bind (.times (Member.decode_relates sim (some pool)) fields.toNat) fun _ ↦
                .bind .u2 fun methods ↦
                  .bind (.times (Member.decode_relates sim (some pool)) methods.toNat) fun _ ↦
                    .bind (.record (.members interfaces fields methods)) fun _ ↦
                      .bind (Attributes.decode_relates sim (some pool)) fun _ ↦ .pure _

end ClassFormat
