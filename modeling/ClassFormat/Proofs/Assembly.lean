import ClassFormat.Proofs.Layout.Instructions
import ClassFormat.Proofs.Plain.Decoders

/-!
# Assembled code

Bytes are an assembly of a list of instructions (`InstructionList.Assembles`) if each instruction
stands where those before it in the list end, each can be written, and the bytes are what they are
written as. An instruction has many assemblies where some of its bytes mean nothing, and how many
these are may depend on where it stands.

The main statement, `InstructionList.decode_eq_ok_iff_assembles`, says that code is read as a list
exactly if it is an assembly of this list. What the layouts leave open is how a run goes that gives
no list, and what it reports: `InstructionList.decodeOnto_walked` follows the reading of
instructions for this, one instruction after the other.
-/

set_option autoImplicit false
set_option relaxedAutoImplicit false

namespace ClassFormat

open Decoder

namespace InstructionList

/-! ### Addresses -/

/-- Instructions stand one behind the other if the address of each is the sum of the sizes of those
before it. -/
theorem contiguous_iff {address : Nat} {instructions : List Instruction} :
    Contiguous address instructions ↔
      ∀ place (hplace : place < instructions.length),
        instructions[place].address.toNat = address + size ⟨instructions.take place⟩ := by
  induction instructions generalizing address with
  | nil => simp [Contiguous]
  | cons first instructions ih =>
    have hnone : size ⟨(first :: instructions).take 0⟩ = 0 := rfl
    rw [Contiguous, ih]
    constructor
    · intro ⟨hfirst, hbehind⟩ place hplace
      cases place with
      | zero => rw [hnone, Nat.add_zero, List.getElem_cons_zero, hfirst]
      | succ place =>
        rw [List.getElem_cons_succ, List.take_succ_cons, size_cons, ← Nat.add_assoc]
        exact hbehind place (Nat.lt_of_succ_lt_succ hplace)
    · intro hall
      have hfirst := hall 0 (Nat.zero_lt_succ _)
      rw [hnone, Nat.add_zero, List.getElem_cons_zero] at hfirst
      refine ⟨hfirst, fun place hplace ↦ ?_⟩
      have hbehind := hall (place + 1) (Nat.succ_lt_succ hplace)
      rwa [List.getElem_cons_succ, List.take_succ_cons, size_cons, ← Nat.add_assoc] at hbehind

/-! ### Runs over instructions -/

/-- What may come of reading the instructions from an address on: they are read and nothing else has
changed, or the run stops before the end of the code, or it comes to stand behind this end. -/
inductive Walked (length : UInt32) (address : Nat) (state : State) :
    EStateM.Result DecodeError State InstructionList → Prop
  | done {list : InstructionList} {count : Nat} (hcount : count ≤ state.cursor.rest.length) :
    Walked length address state (.ok list ⟨state.cursor.advance count, state.log⟩)
  | stopped {error : DecodeError} {after : State} (hcause : ¬error.cause.IsMismatch) :
    Walked length address state (.error error after)
  | past {count : Nat} {after : State} (hcount : count ≤ state.cursor.rest.length)
    (hpast : length.toNat < address + count) :
    Walked length address state
      (.error ⟨.codeLength length (address + count), state.cursor.absolute + count⟩ after)

/-- What comes of the instructions behind the first `count` bytes comes of those at these bytes. -/
theorem Walked.behind {length : UInt32} {address count : Nat} {state : State}
    {result : EStateM.Result DecodeError State InstructionList}
    (hcount : count ≤ state.cursor.rest.length)
    (hwalked : Walked length (address + count) ⟨state.cursor.advance count, state.log⟩ result) :
    Walked length address state result := by
  cases hwalked with
  | @done list further hfurther =>
    rw [Cursor.advance_rest, List.length_drop] at hfurther
    rw [Cursor.advance_advance]
    exact .done (by omega)
  | stopped hcause => exact .stopped hcause
  | @past further after hfurther hpast =>
    rw [Cursor.advance_rest, List.length_drop] at hfurther
    rw [Cursor.advance_absolute, Nat.add_assoc, Nat.add_assoc]
    exact .past (by omega) (by omega)

/-- An opcode is one byte, and reading it changes nothing else. -/
theorem advanced_of_opcode {state between : State} {opcode : Opcode}
    (hopcode : Opcode.decode state = .ok opcode between) :
    1 ≤ state.cursor.rest.length ∧ between = ⟨state.cursor.advance 1, state.log⟩ := by
  obtain ⟨_, rfl, hbegins, hbetween⟩ :=
    (Opcode.decode_reads.eq_ok_iff Opcode.decode_plain.forward.silent).mp hopcode
  exact ⟨hbegins.length_le, hbetween⟩

/-- Reading instructions is such a walk. The induction is the one that the decoder itself makes, and
an instruction moves the walk behind its opcode and then behind its operands. -/
theorem decodeOnto_walked (length : UInt32) (address : Nat) (done : List Instruction)
    (state : State) : Walked length address state (decodeOnto length address done state) := by
  induction address, done using decodeOnto.induct length generalizing state with
  | case1 address done hbefore ih =>
    rw [decodeOnto, if_pos hbefore]
    have hfirst := Opcode.decode_plain.forward state
    cases hopcode : Opcode.decode state with
    | error error after =>
      rw [hopcode] at hfirst
      rw [bind_of_error hopcode]
      cases hfirst with
      | error hcause => exact .stopped hcause
    | ok opcode between =>
      obtain ⟨hbyte, rfl⟩ := advanced_of_opcode hopcode
      rw [bind_of_ok hopcode]
      refine .behind hbyte ?_
      have hsecond := (Operands.decode_plain address opcode.form).forward
        ⟨state.cursor.advance 1, state.log⟩
      cases hoperands : Operands.decode address opcode.form
          ⟨state.cursor.advance 1, state.log⟩ with
      | error error after =>
        rw [hoperands] at hsecond
        rw [bind_of_error (measured_of_error hoperands)]
        cases hsecond with
        | error hcause => exact .stopped hcause
      | ok operands after =>
        rw [hoperands] at hsecond
        rw [bind_of_ok (measured_of_ok hoperands)]
        cases hsecond with
        | @ok _ count hcount =>
          refine .behind hcount ?_
          -- The address moves on by what `measured` says, which is what the operands took.
          have hsize : ((state.cursor.advance 1).advance count).position -
              (state.cursor.advance 1).position = count := by
            rw [Cursor.advance_position, Nat.add_sub_cancel_left]
          simp only [hsize]
          exact ih opcode operands count _
  | case2 done hbefore =>
    rw [decodeOnto, if_neg hbefore, if_pos rfl]
    have hdone : Walked length length.toNat state
        (.ok ⟨done.reverse⟩ ⟨state.cursor.advance 0, state.log⟩) := .done (Nat.zero_le _)
    rwa [Cursor.advance_zero] at hdone
  | case3 address done hbefore hend =>
    rw [decodeOnto, if_neg hbefore, if_neg hend]
    have hpast : length.toNat < address + 0 := by omega
    exact .past (Nat.zero_le _) hpast

theorem decode_silent (length : UInt32) : Silent (decode length) := by
  intro state list after hrun
  have hwalked := decodeOnto_walked length 0 [] state
  rw [decode] at hrun
  rw [hrun] at hwalked
  cases hwalked with
  | done hcount => rfl

/-! ### Assemblies -/

/-- Whether bytes are an assembly of a list of instructions. -/
structure Assembles (list : InstructionList) (code : List UInt8) : Prop where
  /-- Each instruction stands where those before it in the list end. -/
  address_eq : ∀ place (hplace : place < list.toList.length),
    list.toList[place].address.toNat = size ⟨list.toList.take place⟩
  fits : ∀ instruction ∈ list.toList, instruction.Fits
  code_mem : code ∈ list.layout

theorem assembles_iff {list : InstructionList} {code : List UInt8} :
    list.Assembles code ↔ list.WellFormed ∧ code ∈ list.layout := by
  have hcontiguous := @contiguous_iff 0 list.toList
  simp only [Nat.zero_add] at hcontiguous
  constructor
  · intro ⟨haddress, hfits, hcode⟩
    exact ⟨⟨hcontiguous.mpr haddress, hfits⟩, hcode⟩
  · intro ⟨hlist, hcode⟩
    exact ⟨hcontiguous.mp hlist.contiguous, hlist.fits, hcode⟩

/-- Where as many bytes come next as the code is long, these are what is read. -/
theorem decode_eq_ok_iff {length : UInt32} {state after : State} {code : List UInt8}
    (hbegins : code <+: state.cursor.rest) (hlength : code.length = length.toNat)
    (list : InstructionList) :
    decode length state = .ok list after ↔
      list.Assembles code ∧ after = ⟨state.cursor.advance code.length, state.log⟩ := by
  rw [(decode_reads length).eq_ok_iff (decode_silent length), assembles_iff]
  constructor
  · rintro ⟨word, ⟨⟨hlist, hsize⟩, hword⟩, hbegins', rfl⟩
    have hwhole : word.length = code.length := by
      rw [length_of_mem_layout hword, hsize, hlength]
    have hsame : word = code :=
      (List.prefix_of_prefix_length_le hbegins' hbegins hwhole.le).eq_of_length hwhole
    rw [← hsame]
    exact ⟨⟨hlist, hword⟩, rfl⟩
  · rintro ⟨⟨hlist, hcode⟩, rfl⟩
    have hsize : list.size = length.toNat := by rw [← length_of_mem_layout hcode, hlength]
    exact ⟨code, ⟨⟨hlist, hsize⟩, hcode⟩, hbegins, rfl⟩

/-- Code is read as a list of instructions exactly if it is an assembly of this list, wherever the
code stands and whatever is behind it. The run then comes to stand behind the code, and the index of
the list leads from the address of each instruction to its place and from no other address
anywhere. -/
theorem decode_eq_ok_iff_assembles {length : UInt32} {state : State} {code behind : List UInt8}
    (hrest : state.cursor.rest = code ++ behind) (hlength : code.length = length.toNat)
    (list : InstructionList) :
    (∀ after, decode length state = .ok list after ↔
      list.Assembles code ∧ after =
        ⟨{ state.cursor with
            rest := behind, position := state.cursor.position + code.length }, state.log⟩) ∧
      (list.Assembles code → ∀ address place, list.indexOf? address = some place ↔
        (list.toList.map Instruction.address)[place]? = some address) := by
  have hbegins : code <+: state.cursor.rest := hrest ▸ List.prefix_append code behind
  have hbehind : state.cursor.advance code.length =
      { state.cursor with rest := behind, position := state.cursor.position + code.length } := by
    rw [Cursor.advance, hrest, List.drop_left]
  rw [← hbehind]
  refine ⟨fun after ↦ decode_eq_ok_iff hbegins hlength list, fun hassembles address place ↦ ?_⟩
  exact (assembles_iff.mp hassembles).1.indexOf?_eq_some_iff

/-- Code in which the operands of a switch begin behind two bytes of padding, and in which wider
operands and reserved bytes occur. -/
def jumbled : List UInt8 :=
  [0x00, 0xaa, 7, 9, 0xff, 0xff, 0xff, 0xff, 0, 0, 0, 5, 0, 0, 0, 5, 0, 0, 0, 0x13,
    0xc4, 0x84, 1, 0, 0xff, 0xfe, 0xba, 0, 3, 8, 8, 0xb1]

/-- That code is read as a list of which it is an assembly, also where it stands at a place that
four does not divide, and the byte behind it is left. -/
theorem jumbled_assembles :
    let state : State := .start { Cursor.ofBytes (jumbled ++ [0xb1]) with origin := 6 }
    ∃ list after, decode 32 state = .ok list after ∧
      list.toList.map (fun item ↦ (item.address, item.operation.text)) =
        [(0, "nop"), (1, "tableswitch default=0 low=5 high=5 [20]"), (20, "wide iinc 256 -2"),
          (26, "invokedynamic 3"), (31, "return")] ∧
      list.Assembles jumbled ∧ after.cursor.rest = [0xb1] ∧ list.indexOf? 26 = some 3 := by
  intro state
  have hanswer : (match decode 32 state with
      | .ok list _ => some (list.toList.map fun item ↦ (item.address, item.operation.text))
      | .error .. => none) =
        some [(0, "nop"), (1, "tableswitch default=0 low=5 high=5 [20]"), (20, "wide iinc 256 -2"),
          (26, "invokedynamic 3"), (31, "return")] := by decide +kernel
  cases hrun : decode 32 state with
  | error error after =>
    rw [hrun] at hanswer
    cases hanswer
  | ok list after =>
    rw [hrun] at hanswer
    have hitems := Option.some_inj.mp hanswer
    have hrest : state.cursor.rest = jumbled ++ [0xb1] := rfl
    have hlength : jumbled.length = (32 : UInt32).toNat := by decide
    obtain ⟨hreads, hindex⟩ := decode_eq_ok_iff_assembles hrest hlength list
    obtain ⟨hassembles, rfl⟩ := (hreads after).mp hrun
    have haddresses := congrArg (List.map Prod.fst) hitems
    rw [List.map_map] at haddresses
    have hplace : (list.toList.map Instruction.address)[3]? = some 26 :=
      congrArg (·[3]?) haddresses
    exact ⟨list, _, rfl, hitems, hassembles, rfl, (hindex hassembles 26 3).mpr hplace⟩

end InstructionList

end ClassFormat
