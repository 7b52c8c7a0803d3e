import ClassFormat.Proofs.Assembly
import ClassFormat.Proofs.Extension

/-!
# Code with and without a bound

Code is read from a part of the input of just its length, and it might as well be read from the
input itself, for its length is known. Where there is an overrun, the bounded reading meets it
first: a read does not find its bytes within the part. The other one goes on behind the end of the
code, and it is only when the instruction has been read that its end turns out to be too far.

`Decoder.Straddled` compares two runs of one decoder, over some bytes and over the same bytes with
more behind them. They keep together up to the first read that crosses the end of the former.
`InstructionList.decodeOnto_compared` follows two readings of code in this way, and the main
statement, `InstructionList.decode_bounded_agrees`, says how the two outcomes go together.
-/

set_option autoImplicit false
set_option relaxedAutoImplicit false

namespace ClassFormat

namespace Decoder

variable {α β : Type}

/-! ### Reading on -/

/-- What may come of reading on from a state: a value behind at least `least` bytes, or too few
bytes were found at a place that is not before `place`. -/
inductive Onward (state : State) (place least : Nat) : EStateM.Result DecodeError State α → Prop
  | ok {value : α} {count : Nat} (hleast : least ≤ count)
    (hcount : count ≤ state.cursor.rest.length) :
    Onward state place least (.ok value ⟨state.cursor.advance count, state.log⟩)
  | short {requested offset : Nat} {after : State} (hplace : place ≤ offset) :
    Onward state place least (.error ⟨.truncated requested, offset⟩ after)

/-- Reading on behind some bytes is reading on. -/
theorem Onward.behind {state : State} {place least count : Nat}
    {result : EStateM.Result DecodeError State α} (hplace : place ≤ state.cursor.absolute + count)
    (hleast : least ≤ count) (hcount : count ≤ state.cursor.rest.length)
    (honward : Onward ⟨state.cursor.advance count, state.log⟩ (state.cursor.advance count).absolute
      0 result) : Onward state place least result := by
  rw [Cursor.advance_absolute] at honward
  cases honward with
  | @ok value further _ hfurther =>
    rw [Cursor.advance_rest, List.length_drop] at hfurther
    rw [Cursor.advance_advance]
    exact .ok (by omega) (by omega)
  | short hoffset => exact .short (hplace.trans hoffset)

/-- A straight decoder reads on. -/
theorem Straight.onward {item : Decoder α} (hitem : Straight item) {state : State}
    (hclean : state.cursor.ending = .clean) :
    Onward state state.cursor.absolute 0 (item state) := by
  induction hitem generalizing state with
  | pure value =>
    have hresult : Onward state state.cursor.absolute 0
        (.ok value ⟨state.cursor.advance 0, state.log⟩) := .ok (Nat.zero_le _) (Nat.zero_le _)
    rwa [Cursor.advance_zero] at hresult
  | take count =>
    by_cases hcount : count ≤ state.cursor.rest.length
    · rw [take_of_le hcount]
      exact .ok (Nat.zero_le _) hcount
    · rw [take_of_lt hclean (Nat.lt_of_not_le hcount)]
      exact .short (Nat.le_refl _)
  | @bind α β item next hitem hnext ihitem ihnext =>
    have hfirst := ihitem hclean
    cases hrun : item state with
    | error error after =>
      rw [hrun] at hfirst
      rw [bind_of_error hrun]
      cases hfirst with
      | short hoffset => exact .short hoffset
    | ok value between =>
      rw [hrun] at hfirst
      rw [bind_of_ok hrun]
      cases hfirst with
      | @ok _ count hleast hcount =>
        have hsecond := @ihnext value ⟨state.cursor.advance count, state.log⟩ hclean
        exact hsecond.behind (Nat.le_add_right _ _) (Nat.zero_le _) hcount

/-! ### Two runs over bytes of which some are out of reach -/

/-- Two states at one place, the second of which has all bytes of the first one and maybe more. -/
structure Within (left right : State) : Prop where
  left_clean : left.cursor.ending = .clean
  right_clean : right.cursor.ending = .clean
  absolute_eq : right.cursor.absolute = left.cursor.absolute
  rest_prefix : left.cursor.rest <+: right.cursor.rest

theorem Within.advance {left right : State} (hwithin : Within left right) (count : Nat) :
    Within ⟨left.cursor.advance count, left.log⟩ ⟨right.cursor.advance count, right.log⟩ where
  left_clean := hwithin.left_clean
  right_clean := hwithin.right_clean
  absolute_eq := by rw [Cursor.advance_absolute, Cursor.advance_absolute, hwithin.absolute_eq]
  rest_prefix := hwithin.rest_prefix.drop count

/-- How two runs from such states go together. They give one value and stand at one place, or they
refuse one byte, or a read has crossed the end of the first one's bytes and the second run reads on
from there. A byte that is just behind them is missing in the first run and may be refused as an
element type in the second one. -/
inductive Straddled (left right : State) : EStateM.Result DecodeError State α →
    EStateM.Result DecodeError State α → Prop
  | together {value : α} {count : Nat} (hcount : count ≤ left.cursor.rest.length) :
    Straddled left right (.ok value ⟨left.cursor.advance count, left.log⟩)
      (.ok value ⟨right.cursor.advance count, right.log⟩)
  | refused {byte : UInt8} {count : Nat} {leftAfter rightAfter : State}
    (hcount : count < left.cursor.rest.length) :
    Straddled left right (.error ⟨.unknownArrayType byte, left.cursor.absolute + count⟩ leftAfter)
      (.error ⟨.unknownArrayType byte, left.cursor.absolute + count⟩ rightAfter)
  | crossed {requested count : Nat} {after : State} {result : EStateM.Result DecodeError State α}
    (hcount : count ≤ left.cursor.rest.length)
    (hcrossed : left.cursor.rest.length < count + requested)
    (honward : Onward right (left.cursor.absolute + count) (count + requested) result) :
    Straddled left right (.error ⟨.truncated requested, left.cursor.absolute + count⟩ after) result
  | missed {byte : UInt8} {count : Nat} {leftAfter rightAfter : State}
    (hcount : count = left.cursor.rest.length) :
    Straddled left right (.error ⟨.truncated 1, left.cursor.absolute + count⟩ leftAfter)
      (.error ⟨.unknownArrayType byte, left.cursor.absolute + count⟩ rightAfter)

/-- What comes of the runs behind the first `count` bytes comes of those at these bytes. -/
theorem Straddled.behind {left right : State} {count : Nat}
    {first second : EStateM.Result DecodeError State α} (hwithin : Within left right)
    (hcount : count ≤ left.cursor.rest.length)
    (hstraddled : Straddled ⟨left.cursor.advance count, left.log⟩
      ⟨right.cursor.advance count, right.log⟩ first second) :
    Straddled left right first second := by
  have hlonger := hwithin.rest_prefix.length_le
  cases hstraddled with
  | @together value further hfurther =>
    rw [Cursor.advance_rest, List.length_drop] at hfurther
    rw [Cursor.advance_advance, Cursor.advance_advance]
    exact .together (by omega)
  | @refused byte further _ _ hfurther =>
    rw [Cursor.advance_rest, List.length_drop] at hfurther
    rw [Cursor.advance_absolute, Nat.add_assoc]
    exact .refused (by omega)
  | @crossed requested further _ _ hfurther hcrossed honward =>
    rw [Cursor.advance_rest, List.length_drop] at hfurther hcrossed
    rw [Cursor.advance_absolute, Nat.add_assoc] at honward ⊢
    refine .crossed (by omega) (by omega) ?_
    cases honward with
    | @ok value past hleast hpast =>
      rw [Cursor.advance_rest, List.length_drop] at hpast
      rw [Cursor.advance_advance]
      exact .ok (by omega) (by omega)
    | short hplace => exact .short hplace
  | @missed byte further _ _ hfurther =>
    rw [Cursor.advance_rest, List.length_drop] at hfurther
    rw [Cursor.advance_absolute, Nat.add_assoc]
    exact .missed (by omega)

/-- Two runs of a decoder, and then of one that is straight. -/
theorem Straddled.bind {left right : State} {item : Decoder α} {next : α → Decoder β}
    (hwithin : Within left right) (hitem : Straddled left right (item left) (item right))
    (hstraight : ∀ value, Straight (next value))
    (hnext : ∀ value {left right}, Within left right →
      Straddled left right (next value left) (next value right)) :
    Straddled left right ((item >>= next) left) ((item >>= next) right) := by
  generalize hfirst : item left = first at hitem
  generalize hsecond : item right = second at hitem
  cases hitem with
  | @together value count hcount =>
    rw [bind_of_ok hfirst, bind_of_ok hsecond]
    exact (hnext value (hwithin.advance count)).behind hwithin hcount
  | refused hcount =>
    rw [bind_of_error hfirst, bind_of_error hsecond]
    exact .refused hcount
  | crossed hcount hcrossed honward =>
    rw [bind_of_error hfirst]
    refine .crossed hcount hcrossed ?_
    cases honward with
    | @ok value past hleast hpast =>
      rw [bind_of_ok hsecond]
      have hfurther := @Straight.onward _ _ (hstraight value)
        ⟨right.cursor.advance past, right.log⟩ hwithin.right_clean
      rw [← hwithin.absolute_eq]
      exact hfurther.behind (by omega) hleast hpast
    | short hplace =>
      rw [bind_of_error hsecond]
      exact .short hplace
  | missed hcount =>
    rw [bind_of_error hfirst, bind_of_error hsecond]
    exact .missed hcount

/-- A read keeps together, or it crosses the end of the first one's bytes. -/
theorem take_straddled {left right : State} (hwithin : Within left right) (count : Nat) :
    Straddled left right (take count left) (take count right) := by
  have hlonger := hwithin.rest_prefix.length_le
  by_cases hcount : count ≤ left.cursor.rest.length
  · have hsame : right.cursor.rest.take count = left.cursor.rest.take count := by
      obtain ⟨behind, hbehind⟩ := hwithin.rest_prefix
      rw [← hbehind, List.take_append_of_le_length hcount]
    rw [take_of_le hcount, take_of_le (hcount.trans hlonger), hsame]
    exact .together hcount
  · have hcrossed : left.cursor.rest.length < 0 + count := by omega
    rw [take_of_lt hwithin.left_clean (Nat.lt_of_not_le hcount)]
    refine .crossed (Nat.zero_le _) hcrossed ?_
    by_cases hlong : count ≤ right.cursor.rest.length
    · rw [take_of_le hlong]
      exact .ok (by omega) hlong
    · rw [take_of_lt hwithin.right_clean (Nat.lt_of_not_le hlong)]
      exact .short (Nat.le_of_eq hwithin.absolute_eq.symm)

theorem Straight.straddled {item : Decoder α} (hitem : Straight item) {left right : State}
    (hwithin : Within left right) : Straddled left right (item left) (item right) := by
  induction hitem generalizing left right with
  | pure value =>
    have hresult : Straddled left right (.ok value ⟨left.cursor.advance 0, left.log⟩)
        (.ok value ⟨right.cursor.advance 0, right.log⟩) := .together (Nat.zero_le _)
    rwa [Cursor.advance_zero, Cursor.advance_zero] at hresult
  | take count => exact take_straddled hwithin count
  | bind hitem hnext ihitem ihnext => exact .bind hwithin (ihitem hwithin) hnext ihnext

/-- An error about a byte is kept by what surrounds the part of the input that it is in. -/
theorem overrunAs_of_byte? {cause : DecodeError.Cause} {byte : UInt8}
    (hcause : cause.byte? = some byte) (overrun : Nat → DecodeError.Cause) (origin offset : Nat) :
    overrunAs overrun origin ⟨cause, offset⟩ = ⟨cause, offset⟩ := by
  cases cause with
  | truncated requested => cases hcause
  | _ => rfl

end Decoder

open Decoder

theorem Opcode.decode_of_cons {state : State} {byte : UInt8} {behind : List UInt8}
    (hrest : state.cursor.rest = byte :: behind) :
    Opcode.decode state = match Opcode.ofByte? byte with
      | some opcode => .ok opcode ⟨state.cursor.advance 1, state.log⟩
      | none => .error ⟨.unknownOpcode byte, state.cursor.absolute⟩
          ⟨state.cursor.advance 1, state.log⟩ := by
  have hbyte : Opcode.decode state = _ := tagged_of_cons hrest
  rw [hbyte]
  cases Opcode.ofByte? byte <;> rfl

namespace Operands

theorem decodeArrayType_of_cons {state : State} {code : UInt8} {behind : List UInt8}
    (hrest : state.cursor.rest = code :: behind) :
    decodeArrayType state = match ArrayType.ofCode? code with
      | some element => .ok element ⟨state.cursor.advance 1, state.log⟩
      | none => .error ⟨.unknownArrayType code, state.cursor.absolute⟩
          ⟨state.cursor.advance 1, state.log⟩ := by
  have hcode : decodeArrayType state = _ := tagged_of_cons hrest
  rw [hcode]
  cases ArrayType.ofCode? code <;> rfl

theorem decodeArrayType_of_nil {state : State} (hclean : state.cursor.ending = .clean)
    (hrest : state.cursor.rest = []) :
    decodeArrayType state = .error ⟨.truncated 1, state.cursor.absolute⟩ state :=
  tagged_of_nil hclean hrest

theorem decodeArrayType_straddled {left right : State} (hwithin : Within left right) :
    Straddled left right (decodeArrayType left) (decodeArrayType right) := by
  obtain ⟨behind, hbehind⟩ := hwithin.rest_prefix
  have hplace : left.cursor.absolute + 0 = right.cursor.absolute := hwithin.absolute_eq.symm
  cases hleft : left.cursor.rest with
  | cons code near =>
    have hright : right.cursor.rest = code :: (near ++ behind) := by rw [← hbehind, hleft]; rfl
    have hcount : 0 < left.cursor.rest.length := by rw [hleft]; exact Nat.zero_lt_succ _
    rw [decodeArrayType_of_cons hleft, decodeArrayType_of_cons hright, hwithin.absolute_eq]
    cases ArrayType.ofCode? code with
    | some element => exact .together hcount
    | none => exact .refused hcount
  | nil =>
    have hcount : 0 = left.cursor.rest.length := by rw [hleft]; rfl
    rw [decodeArrayType_of_nil hwithin.left_clean hleft]
    cases hright : right.cursor.rest with
    | nil =>
      rw [decodeArrayType_of_nil hwithin.right_clean hright]
      exact .crossed (Nat.zero_le _) (by omega) (.short (Nat.le_of_eq hplace))
    | cons code behind =>
      have hlong : 0 < right.cursor.rest.length := by rw [hright]; exact Nat.zero_lt_succ _
      rw [decodeArrayType_of_cons hright, hwithin.absolute_eq]
      cases ArrayType.ofCode? code with
      | some element => exact .crossed (Nat.zero_le _) (by omega) (.ok (Nat.le_refl _) hlong)
      | none => exact .missed hcount

theorem decode_straddled (address : Nat) (form : Form) {left right : State}
    (hwithin : Within left right) :
    Straddled left right (decode address form left) (decode address form right) := by
  by_cases hform : form = .arrayType
  · subst hform
    have hpure : ∀ element, Straight (pure (Operands.arrayType element)) := fun _ ↦ .pure _
    exact .bind hwithin (decodeArrayType_straddled hwithin) hpure fun element _ _ hwithin ↦
      (hpure element).straddled hwithin
  · exact (decode_straight address hform).straddled hwithin

end Operands

namespace InstructionList

/-! ### Code -/

/-- How code fails without a bound where, bounded, it was found at `offset` to take `decoded` bytes
and the bytes end at `stop`. The last instruction is read and takes as many bytes or more, or some
read does not find its bytes at or behind that place, or the byte that is not within the bound is
refused as an element type. -/
inductive Overrun (length : UInt32) (decoded offset stop : Nat) :
    EStateM.Result DecodeError State InstructionList → Prop
  | behind {decoded' offset' : Nat} {after : State} (hdecoded : decoded ≤ decoded') :
    Overrun length decoded offset stop (.error ⟨.codeLength length decoded', offset'⟩ after)
  | short {requested offset' : Nat} {after : State} (hoffset : offset ≤ offset') :
    Overrun length decoded offset stop (.error ⟨.truncated requested, offset'⟩ after)
  | missed {byte : UInt8} {after : State} (hstop : offset = stop) :
    Overrun length decoded offset stop (.error ⟨.unknownArrayType byte, offset⟩ after)

/-- How two readings of the instructions from an address on go together. -/
inductive Compared (length : UInt32) (address : Nat) (left right : State) :
    EStateM.Result DecodeError State InstructionList →
      EStateM.Result DecodeError State InstructionList → Prop
  | together {list : InstructionList} {leftAfter rightAfter : State} :
    Compared length address left right (.ok list leftAfter) (.ok list rightAfter)
  | refused {cause : DecodeError.Cause} {byte : UInt8} {count : Nat} {leftAfter rightAfter : State}
    (hcause : cause.byte? = some byte) (hcount : count < left.cursor.rest.length) :
    Compared length address left right
      (.error ⟨cause, left.cursor.absolute + count⟩ leftAfter)
      (.error ⟨cause, left.cursor.absolute + count⟩ rightAfter)
  | crossed {requested count : Nat} {after : State}
    {result : EStateM.Result DecodeError State InstructionList}
    (hcount : count ≤ left.cursor.rest.length)
    (hcrossed : left.cursor.rest.length < count + requested)
    (hoverrun : Overrun length (address + count + requested) (left.cursor.absolute + count)
      left.cursor.stop result) :
    Compared length address left right
      (.error ⟨.truncated requested, left.cursor.absolute + count⟩ after) result

theorem Compared.behind {length : UInt32} {address count : Nat} {left right : State}
    {first second : EStateM.Result DecodeError State InstructionList}
    (hcount : count ≤ left.cursor.rest.length)
    (hcompared : Compared length (address + count) ⟨left.cursor.advance count, left.log⟩
      ⟨right.cursor.advance count, right.log⟩ first second) :
    Compared length address left right first second := by
  have hstop : (left.cursor.advance count).stop = left.cursor.stop := by
    rw [Cursor.stop, Cursor.stop, Cursor.advance_absolute, Cursor.advance_rest, List.length_drop]
    omega
  cases hcompared with
  | together => exact .together
  | @refused cause byte further _ _ hcause hfurther =>
    rw [Cursor.advance_rest, List.length_drop] at hfurther
    rw [Cursor.advance_absolute, Nat.add_assoc]
    exact .refused hcause (by omega)
  | @crossed requested further _ _ hfurther hcrossed hoverrun =>
    rw [Cursor.advance_rest, List.length_drop] at hfurther hcrossed
    rw [Cursor.advance_absolute, Nat.add_assoc address, Nat.add_assoc left.cursor.absolute,
      hstop] at hoverrun
    rw [Cursor.advance_absolute, Nat.add_assoc]
    exact .crossed (by omega) (by omega) hoverrun

/-- Where the instructions have come to stand behind the end of the code, no more are read. -/
theorem decodeOnto_of_lt {length : UInt32} {address : Nat} (hpast : length.toNat < address)
    (done : List Instruction) (state : State) :
    decodeOnto length address done state =
      .error ⟨.codeLength length address, state.cursor.absolute⟩ state := by
  rw [decodeOnto, if_neg (by omega), if_neg (by omega), fail_run]

/-- Two readings of operands, and then of the instructions behind them. Where the second reading
alone has found all bytes of the operands, it stands behind the end of the code. -/
theorem operands_compared {length : UInt32} {start address : Nat} {form : Form}
    {next : Operands form × Nat → Decoder InstructionList} {left right : State}
    (hwithin : Within left right)
    (htogether : ∀ operands count, count ≤ left.cursor.rest.length →
      Compared length (address + count) ⟨left.cursor.advance count, left.log⟩
        ⟨right.cursor.advance count, right.log⟩
        (next (operands, count) ⟨left.cursor.advance count, left.log⟩)
        (next (operands, count) ⟨right.cursor.advance count, right.log⟩))
    (hpast : ∀ operands count state, left.cursor.rest.length < count →
      next (operands, count) state =
        .error ⟨.codeLength length (address + count), state.cursor.absolute⟩ state) :
    Compared length address left right
      ((measured (Operands.decode start form) >>= next) left)
      ((measured (Operands.decode start form) >>= next) right) := by
  have hoperands := Operands.decode_straddled start form hwithin
  generalize hleft : Operands.decode start form left = first at hoperands
  generalize hright : Operands.decode start form right = second at hoperands
  cases hoperands with
  | @together operands count hcount =>
    rw [bind_of_ok (measured_of_ok hleft), bind_of_ok (measured_of_ok hright)]
    simp only [Cursor.advance_position, Nat.add_sub_cancel_left]
    exact .behind hcount (htogether operands count hcount)
  | refused hcount =>
    rw [bind_of_error (measured_of_error hleft), bind_of_error (measured_of_error hright)]
    exact .refused rfl hcount
  | @crossed requested count after _ hcount hcrossed honward =>
    rw [bind_of_error (measured_of_error hleft)]
    refine .crossed hcount hcrossed ?_
    cases honward with
    | @ok operands past hleast _ =>
      rw [bind_of_ok (measured_of_ok hright)]
      simp only [Cursor.advance_position, Nat.add_sub_cancel_left]
      rw [hpast operands past _ (by omega)]
      exact .behind (by omega)
    | short hoffset =>
      rw [bind_of_error (measured_of_error hright)]
      exact .short hoffset
  | @missed code count leftAfter rightAfter hcount =>
    rw [bind_of_error (measured_of_error hleft), bind_of_error (measured_of_error hright)]
    refine .crossed (Nat.le_of_eq hcount) (by omega) (.missed ?_)
    rw [hcount]
    rfl

/-- Two readings of code. The first one has just the bytes up to the end of the code. The induction
is the one that the decoder itself makes. -/
theorem decodeOnto_compared (length : UInt32) (address : Nat) (done : List Instruction)
    {left right : State} (hwithin : Within left right)
    (hlength : address + left.cursor.rest.length = length.toNat) :
    Compared length address left right (decodeOnto length address done left)
      (decodeOnto length address done right) := by
  induction address, done using decodeOnto.induct length generalizing left right with
  | case1 address done hbefore ih =>
    rw [decodeOnto, if_pos hbefore]
    obtain ⟨behind, hbehind⟩ := hwithin.rest_prefix
    cases hleft : left.cursor.rest with
    | nil =>
      -- The code goes on, so there is a byte within the bound.
      rw [hleft, List.length_nil] at hlength
      omega
    | cons byte near =>
      have hright : right.cursor.rest = byte :: (near ++ behind) := by rw [← hbehind, hleft]; rfl
      have hbyte : 1 ≤ left.cursor.rest.length := by rw [hleft]; exact Nat.le_add_left 1 _
      have hfirst := Opcode.decode_of_cons hleft
      have hsecond := Opcode.decode_of_cons hright
      rw [hwithin.absolute_eq] at hsecond
      cases hopcode : Opcode.ofByte? byte with
      | none =>
        rw [hopcode] at hfirst hsecond
        rw [bind_of_error hfirst, bind_of_error hsecond]
        exact .refused rfl hbyte
      | some opcode =>
        rw [hopcode] at hfirst hsecond
        rw [bind_of_ok hfirst, bind_of_ok hsecond]
        refine .behind hbyte ?_
        refine operands_compared (hwithin.advance 1) (fun operands count hcount ↦ ?_)
          fun operands count state hcount ↦ ?_
        · refine ih opcode operands count ((hwithin.advance 1).advance count) ?_
          simp only [Cursor.advance_rest, List.length_drop] at hcount ⊢
          omega
        · simp only [Cursor.advance_rest, List.length_drop] at hcount
          exact decodeOnto_of_lt (by omega) _ state
  | case2 done hbefore =>
    rw [decodeOnto, if_neg hbefore, if_pos rfl]
    exact .together
  | case3 address done hbefore hend =>
    -- The first run never comes to stand behind its own bytes.
    omega

/-- How two readings of code that begins at `start` go together, one of just its bytes and one of
these and others behind them. -/
structure BoundAgrees (length : UInt32) (start : Nat)
    (bounded unbounded : EStateM.Result DecodeError State InstructionList) : Prop where
  ok_iff (list : InstructionList) (after : State) :
    bounded = .ok list after ↔ unbounded = .ok list after
  opcode_iff (byte : UInt8) (offset : Nat) :
    (∃ after, bounded = .error ⟨.unknownOpcode byte, offset⟩ after) ↔
      ∃ after, unbounded = .error ⟨.unknownOpcode byte, offset⟩ after
  arrayType_iff (byte : UInt8) (offset : Nat) :
    (∃ after, bounded = .error ⟨.unknownArrayType byte, offset⟩ after) ↔
      offset < start + length.toNat ∧
        ∃ after, unbounded = .error ⟨.unknownArrayType byte, offset⟩ after
  overrun {declared : UInt32} {decoded offset : Nat} {after : State}
    (hbounded : bounded = .error ⟨.codeLength declared decoded, offset⟩ after) :
    declared = length ∧ length.toNat < decoded ∧
      Overrun length decoded offset (start + length.toNat) unbounded

/-- A value behind all of the code, and both readings stand there. -/
theorem BoundAgrees.of_ok {length : UInt32} {start : Nat} (list : InstructionList)
    (after : State) : BoundAgrees length start (.ok list after) (.ok list after) where
  ok_iff _ _ := Iff.rfl
  opcode_iff _ _ := Iff.rfl
  arrayType_iff byte offset := by simp
  overrun hbounded := by cases hbounded

/-- A byte of the code is refused by both. -/
theorem BoundAgrees.of_refused {length : UInt32} {start : Nat} {cause : DecodeError.Cause}
    {byte : UInt8} {count : Nat} (hcause : cause.byte? = some byte) (hcount : count < length.toNat)
    (after after' : State) :
    BoundAgrees length start (.error ⟨cause, start + count⟩ after)
      (.error ⟨cause, start + count⟩ after') where
  ok_iff _ _ := by simp
  opcode_iff byte offset := by simp
  arrayType_iff byte offset := by
    simp only [EStateM.Result.error.injEq, DecodeError.mk.injEq, exists_and_left, exists_eq',
      and_true]
    constructor
    · rintro ⟨rfl, rfl⟩
      exact ⟨by omega, rfl, rfl⟩
    · exact fun herror ↦ herror.2
  overrun hbounded := by
    cases hbounded
    cases hcause

/-- A read has crossed the end of the code. -/
theorem BoundAgrees.of_overrun {length : UInt32} {start decoded offset : Nat} {after : State}
    {unbounded : EStateM.Result DecodeError State InstructionList}
    (hdecoded : length.toNat < decoded)
    (hoverrun : Overrun length decoded offset (start + length.toNat) unbounded) :
    BoundAgrees length start (.error ⟨.codeLength length decoded, offset⟩ after) unbounded := by
  refine ⟨fun list after ↦ ?_, fun byte offset ↦ ?_, fun byte offset ↦ ?_, fun hbounded ↦ ?_⟩
  · cases hoverrun <;> simp
  · cases hoverrun <;> simp
  · cases hoverrun with
    | behind hdecoded => simp
    | short hoffset => simp
    | missed hstop =>
      simp only [EStateM.Result.error.injEq, DecodeError.mk.injEq, reduceCtorEq, false_and,
        exists_false, false_iff, not_and]
      rintro hoffset ⟨after, ⟨-, rfl⟩, -⟩
      omega
  · cases hbounded
    exact ⟨rfl, hdecoded, hoverrun⟩

/-- Wherever code stands in the input and whatever is behind it, it makes no difference for what is
decoded whether the reading is bounded by its length. The readings refuse the same bytes of the
code. A read that crosses the bound keeps also the unbounded reading from giving a value. -/
theorem decode_bounded_agrees {length : UInt32} {state : State} {code behind : List UInt8}
    (hclean : state.cursor.ending = .clean) (hrest : state.cursor.rest = code ++ behind)
    (hlength : code.length = length.toNat) :
    BoundAgrees length state.cursor.absolute
      (bounded length.toNat (.codeLength length) (decode length) state) (decode length state) := by
  have hbegins : code <+: state.cursor.rest := hrest ▸ List.prefix_append code behind
  have htaken : state.cursor.take length.toNat =
      .ok (code, state.cursor.advance length.toNat) :=
    (Cursor.take_eq_ok_iff _ _ _ _).mpr ⟨hlength, hbegins, rfl⟩
  have hwithin : Within ⟨state.cursor.window code, state.log⟩ state :=
    ⟨rfl, hclean, rfl, hbegins⟩
  have hcompared := decodeOnto_compared length 0 [] hwithin
    (by rw [Cursor.window_rest, hlength, Nat.zero_add])
  rw [bounded_of_take_ok htaken]
  rw [← decode] at hcompared
  generalize hinner : decode length ⟨state.cursor.window code, state.log⟩ = inner at hcompared
  generalize houter : decode length state = outer at hcompared
  cases hcompared with
  | @together list innerAfter outerAfter =>
    have hcode : code <+: (state.cursor.window code).rest := List.prefix_rfl
    obtain ⟨-, rfl⟩ := (decode_eq_ok_iff hcode hlength list).mp hinner
    obtain ⟨-, rfl⟩ := (decode_eq_ok_iff hbegins hlength list).mp houter
    rw [hlength]
    exact .of_ok list _
  | @refused cause byte count _ _ hcause hcount =>
    rw [Cursor.window_rest, hlength] at hcount
    rw [Cursor.window_absolute]
    simp only [overrunAs_of_byte? hcause]
    exact .of_refused hcause hcount _ _
  | @crossed requested count after _ hcount hcrossed hoverrun =>
    rw [Cursor.window_rest, hlength] at hcrossed
    rw [Nat.zero_add, Cursor.stop, Cursor.window_absolute, Cursor.window_rest, hlength] at hoverrun
    have hdecoded : state.cursor.absolute + count - state.cursor.absolute + requested =
        count + requested := by omega
    rw [Cursor.window_absolute]
    simp only [overrunAs, hdecoded]
    exact .of_overrun hcrossed hoverrun

/-- Code that ends with an instruction for an array without its element type. Bounded, that byte is
missing; otherwise the byte behind the code is refused in its place. -/
theorem newarray_bounded_agrees :
    let state : State := .start (.ofBytes [0x00, 0xbc, 0x63])
    BoundAgrees 2 0 (bounded 2 (.codeLength 2) (decode 2) state) (decode 2 state) ∧
      (∃ after, bounded 2 (.codeLength 2) (decode 2) state =
        .error ⟨.codeLength 2 3, 2⟩ after) ∧
      ∃ after, decode 2 state = .error ⟨.unknownArrayType 0x63, 2⟩ after := by
  intro state
  have hrest : state.cursor.rest = [0x00, 0xbc] ++ [0x63] := rfl
  exact ⟨@decode_bounded_agrees 2 state _ _ rfl hrest (by decide),
    exists_error_of_answer (by decide +kernel), exists_error_of_answer (by decide +kernel)⟩

end InstructionList

end ClassFormat
