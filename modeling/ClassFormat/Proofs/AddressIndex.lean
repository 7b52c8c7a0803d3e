import ClassFormat.Proofs.Assembly

/-!
# The index of addresses

A list of instructions that was read comes with an index, which leads from the address of an
instruction to its place in the list. The reading of code goes from one instruction to the next
(`InstructionList.decodeOnto_step`), and each of them begins behind the one before it and before the
end of the code (`InstructionList.decodeOnto_stands_at`). So the address of each is a number of four
bytes, and is new to the index. An index that is filled on the way is the index of the list in the
end (`InstructionList.decodeIndexingOnto_eq`).

The main statement, `InstructionList.decode_indexed`, says that the list and its index hold the same
addresses, that these increase from the first one of the code, and that no entry of the index was
ever replaced.
-/

set_option autoImplicit false
set_option relaxedAutoImplicit false

namespace ClassFormat.InstructionList

open Decoder

/-! ### Entries -/

/-- An instruction behind a list is one more entry in its index. -/
theorem addressIndex_concat (before : List Instruction) (instruction : Instruction) :
    addressIndex ⟨before ++ [instruction]⟩ =
      (addressIndex ⟨before⟩).insert instruction.address before.length := by
  rw [addressIndex, List.zipIdx_append, List.foldl_append, Nat.zero_add]
  rfl

/-- The index knows the addresses of the instructions and no others. -/
theorem mem_addressIndex_iff {list : InstructionList} {address : UInt32} :
    address ∈ list.addressIndex ↔ ∃ instruction ∈ list.toList, instruction.address = address := by
  rw [addressIndex_eq, Std.HashMap.mem_ofList, List.zipIdx_map_fst, List.contains_iff_mem,
    List.mem_map]

/-- There are as many entries as instructions, where no two of these have the same address. -/
theorem size_addressIndex {list : InstructionList}
    (hnodup : (list.toList.map Instruction.address).Nodup) :
    list.addressIndex.size = list.length := by
  rw [addressIndex_eq, Std.HashMap.size_ofList (distinct_keys hnodup), List.length_zipIdx,
    List.length_map, length]

/-! ### The loop that fills the index -/

/-- Reads the instructions from `address` on, onto those already read, which are held in reverse,
and enters each of them into an index as soon as it is read. -/
def decodeIndexingOnto (length : UInt32) (address : Nat) (done : List Instruction)
    (index : Std.HashMap UInt32 Nat) : Decoder (InstructionList × Std.HashMap UInt32 Nat) := do
  if address < length.toNat then
    let opcode ← Opcode.decode
    let (operands, size) ← measured (Operands.decode address opcode.form)
    decodeIndexingOnto length (address + 1 + size)
      (⟨UInt32.ofNat address, opcode, operands⟩ :: done)
      (index.insert (UInt32.ofNat address) done.length)
  else if address = length.toNat then
    return (⟨done.reverse⟩, index)
  else
    fail (.codeLength length address)
termination_by length.toNat - address

/-- Reads code of the given length together with its index. -/
def decodeIndexing (length : UInt32) : Decoder (InstructionList × Std.HashMap UInt32 Nat) :=
  decodeIndexingOnto length 0 [] ∅

/-- The loop comes to the list and to the index of this list. Its invariant is that the index so far
is the one of the instructions so far. -/
theorem decodeIndexingOnto_eq (length : UInt32) (address : Nat) (done : List Instruction) :
    decodeIndexingOnto length address done (addressIndex ⟨done.reverse⟩) =
      (fun list ↦ (list, list.addressIndex)) <$> decodeOnto length address done := by
  induction address, done using decodeOnto.induct length with
  | case1 address done hbefore ih =>
    rw [decodeIndexingOnto, decodeOnto, if_pos hbefore, if_pos hbefore, map_bind]
    congr 1
    funext opcode
    rw [map_bind]
    congr 1
    funext sized
    obtain ⟨operands, size⟩ := sized
    have hindex : addressIndex ⟨(⟨UInt32.ofNat address, opcode, operands⟩ :: done).reverse⟩ =
        (addressIndex ⟨done.reverse⟩).insert (UInt32.ofNat address) done.length := by
      rw [List.reverse_cons, addressIndex_concat, List.length_reverse]
    rw [← ih opcode operands size, hindex]
  | case2 done hbefore =>
    rw [decodeIndexingOnto, decodeOnto, if_neg hbefore, if_neg hbefore, if_pos rfl, if_pos rfl]
    rfl
  | case3 address done hbefore hend =>
    rw [decodeIndexingOnto, decodeOnto, if_neg hbefore, if_neg hbefore, if_neg hend, if_neg hend]
    rfl

theorem decodeIndexing_of_decode {length : UInt32} {state after : State} {list : InstructionList}
    (hrun : decode length state = .ok list after) :
    decodeIndexing length state = .ok (list, list.addressIndex) after := by
  have hloop : decodeIndexing length =
      decode length >>= fun list ↦ pure (list, list.addressIndex) :=
    (decodeIndexingOnto_eq length 0 []).trans (map_eq_pure_bind _ _)
  rw [hloop, bind_of_ok hrun]
  rfl

/-! ### The reading of code -/

/-- What was read stays at the head of the list. -/
theorem exists_append_of_decodeOnto {length : UInt32} {address : Nat} {done : List Instruction}
    {state after : State} {list : InstructionList}
    (hrun : decodeOnto length address done state = .ok list after) :
    ∃ instructions, list.toList = done.reverse ++ instructions := by
  obtain ⟨_, ⟨instructions, rfl, -⟩, -⟩ :=
    (decodeOnto_reads length address done state list after.cursor rfl).mp ⟨_, hrun⟩
  exact ⟨instructions, rfl⟩

/-- Reading goes on for as long as the end of the code is not reached. -/
theorem lt_of_decodeOnto {length : UInt32} {address : Nat} {done : List Instruction}
    {state after : State} {list : InstructionList} {instruction : Instruction}
    {behind : List Instruction} (hrun : decodeOnto length address done state = .ok list after)
    (hlist : list.toList = done.reverse ++ instruction :: behind) : address < length.toNat := by
  by_contra hbefore
  rw [decodeOnto, if_neg hbefore] at hrun
  split at hrun
  · cases hrun
    exact absurd hlist (by simp)
  · cases hrun

/-- The next instruction of the list is the one that is read next. Its address is the place that the
reading has come to, and the reading goes on behind it. -/
theorem decodeOnto_step {length : UInt32} {address : Nat} {done : List Instruction}
    {state after : State} {list : InstructionList} {instruction : Instruction}
    {behind : List Instruction} (hrun : decodeOnto length address done state = .ok list after)
    (hlist : list.toList = done.reverse ++ instruction :: behind) :
    instruction.address = UInt32.ofNat address ∧
      ∃ count, decodeOnto length address done state =
        decodeOnto length (address + count) (instruction :: done)
          ⟨state.cursor.advance count, state.log⟩ := by
  have hbefore := lt_of_decodeOnto hrun hlist
  have hloop := hrun
  rw [decodeOnto, if_pos hbefore, bind_eq_ok_iff] at hrun
  obtain ⟨opcode, _, hopcode, hbehind⟩ := hrun
  obtain ⟨-, rfl⟩ := advanced_of_opcode hopcode
  obtain ⟨_, _, hmeasured, -⟩ := bind_eq_ok_iff.mp hbehind
  cases hoperands : Operands.decode address opcode.form ⟨state.cursor.advance 1, state.log⟩ with
  | error error between =>
    rw [measured_of_error hoperands] at hmeasured
    cases hmeasured
  | ok operands between =>
    have hforward := (Operands.decode_plain address opcode.form).forward
      ⟨state.cursor.advance 1, state.log⟩
    rw [hoperands] at hforward
    cases hforward with
    | @ok _ count hcount =>
      have hstep : decodeOnto length address done state =
          decodeOnto length (address + (1 + count))
            (⟨UInt32.ofNat address, opcode, operands⟩ :: done)
            ⟨state.cursor.advance (1 + count), state.log⟩ := by
        rw [decodeOnto, if_pos hbefore, bind_of_ok hopcode, bind_of_ok (measured_of_ok hoperands)]
        simp only [Cursor.advance_advance, Cursor.advance_position, Nat.add_assoc,
          Nat.add_sub_cancel_left, Nat.add_sub_add_left]
      -- The instruction that was read is the one that the list has at this place.
      rw [hstep] at hloop
      obtain ⟨instructions, hread⟩ := exists_append_of_decodeOnto hloop
      rw [hlist, List.reverse_cons, List.append_assoc, List.append_cancel_left_eq] at hread
      obtain ⟨rfl, -⟩ := List.cons.inj hread
      exact ⟨rfl, 1 + count, hstep⟩

/-- The reading of code that was read as a list stands, for each instruction of the list, where this
instruction begins, and has then read the instructions before it. -/
theorem decodeOnto_stands_at {length : UInt32} {address : Nat} {done before : List Instruction}
    {state after : State} {list : InstructionList} {instruction : Instruction}
    {behind : List Instruction} (hrun : decodeOnto length address done state = .ok list after)
    (hlist : list.toList = done.reverse ++ (before ++ instruction :: behind)) :
    ∃ count, address + count < length.toNat ∧
      instruction.address = UInt32.ofNat (address + count) ∧
      decodeOnto length address done state =
        decodeOnto length (address + count) (before.reverse ++ done)
          ⟨state.cursor.advance count, state.log⟩ := by
  induction before generalizing address done state with
  | nil =>
    have haddress := (decodeOnto_step hrun hlist).1
    exact ⟨0, lt_of_decodeOnto hrun hlist, haddress, by rw [Cursor.advance_zero]; rfl⟩
  | cons first before ih =>
    obtain ⟨-, count, hstep⟩ := decodeOnto_step hrun hlist
    have hlist' : list.toList = (first :: done).reverse ++ (before ++ instruction :: behind) := by
      rw [hlist, List.reverse_cons, List.append_assoc]
      rfl
    obtain ⟨further, hlt, haddress, hfurther⟩ := ih (hstep ▸ hrun) hlist'
    rw [Nat.add_assoc] at hlt haddress hfurther
    refine ⟨count + further, hlt, haddress, ?_⟩
    rw [hstep, hfurther, Cursor.advance_advance, List.reverse_cons, List.append_assoc]
    rfl

/-! ### Addresses -/

/-- What is known of a list that was read from code of a length, and of its index. -/
structure Indexed (length : UInt32) (list : InstructionList) : Prop where
  /-- An address leads to a place exactly if the instruction at this place has the address. -/
  indexOf?_eq_some_iff (address : UInt32) (place : Nat) :
    list.indexOf? address = some place ↔
      ∃ hplace : place < list.toList.length, list.toList[place].address = address
  /-- The instruction at a place is found by its address. -/
  at?_address (place : Nat) (hplace : place < list.toList.length) :
    list.at? list.toList[place].address = some list.toList[place]
  /-- An address leads nowhere exactly if no instruction begins there. -/
  indexOf?_eq_none_iff (address : UInt32) :
    list.indexOf? address = none ↔ ∀ instruction ∈ list.toList, instruction.address ≠ address
  /-- No address behind the code leads anywhere. -/
  indexOf?_of_le (address : UInt32) (hbehind : length ≤ address) : list.indexOf? address = none
  increasing : (list.toList.map Instruction.address).Pairwise (· < ·)
  /-- The first instruction begins where the code begins. -/
  first (hlength : 0 < length) : (list.toList.map Instruction.address).head? = some 0
  lt_length : ∀ instruction ∈ list.toList, instruction.address < length
  /-- The index has one entry for each instruction. -/
  size_eq : list.addressIndex.size = list.length

theorem WellFormed.indexOf?_iff_getElem {list : InstructionList} (hlist : list.WellFormed)
    (address : UInt32) (place : Nat) :
    list.indexOf? address = some place ↔
      ∃ hplace : place < list.toList.length, list.toList[place].address = address := by
  rw [hlist.indexOf?_eq_some_iff, List.getElem?_map, Option.map_eq_some_iff]
  simp only [List.getElem?_eq_some_iff, ↓existsAndEq, true_and]

theorem indexOf?_eq_none_iff (list : InstructionList) (address : UInt32) :
    list.indexOf? address = none ↔ ∀ instruction ∈ list.toList, instruction.address ≠ address := by
  rw [indexOf?, getElem?_eq_none_iff, mem_addressIndex_iff]
  simp only [not_exists, not_and, ne_eq]

/-- Instructions that stand one behind the other begin before they end. -/
theorem Contiguous.address_lt {address : Nat} {instructions : List Instruction}
    (hcontiguous : Contiguous address instructions) :
    ∀ instruction ∈ instructions, instruction.address.toNat < address + size ⟨instructions⟩ := by
  induction instructions generalizing address with
  | nil => simp
  | cons first instructions ih =>
    obtain ⟨haddress, hrest⟩ := hcontiguous
    have hfirst : 1 ≤ first.size := Nat.le_add_right _ _
    rw [size_cons]
    refine List.forall_mem_cons.mpr ⟨by omega, fun instruction hinstruction ↦ ?_⟩
    have hbehind := ih hrest instruction hinstruction
    omega

theorem WellFormed.indexed {length : UInt32} {list : InstructionList} (hlist : list.WellFormed)
    (hsize : list.size = length.toNat) : Indexed length list := by
  have hlt : ∀ instruction ∈ list.toList, instruction.address < length := by
    intro instruction hinstruction
    have hbefore := hlist.contiguous.address_lt instruction hinstruction
    rwa [Nat.zero_add, hsize] at hbefore
  refine ⟨hlist.indexOf?_iff_getElem, ?_, list.indexOf?_eq_none_iff, ?_,
    hlist.contiguous.increasing, ?_, hlt, size_addressIndex hlist.contiguous.nodup_addresses⟩
  · intro place hplace
    have hindex := (hlist.indexOf?_iff_getElem _ place).mpr ⟨hplace, rfl⟩
    rw [at?, hindex, Option.bind_some, List.getElem?_eq_getElem hplace]
  · intro address hbehind
    rw [indexOf?_eq_none_iff]
    rintro instruction hinstruction rfl
    exact absurd (hlt instruction hinstruction) (UInt32.not_lt.mpr hbehind)
  · intro hlength
    obtain ⟨instructions⟩ := list
    cases instructions with
    | nil =>
      have hpositive : 0 < length.toNat := UInt32.lt_iff_toNat_lt.mp hlength
      rw [← hsize] at hpositive
      exact absurd hpositive (Nat.lt_irrefl 0)
    | cons first instructions =>
      have hfirst : first.address = 0 := UInt32.toNat_inj.mp hlist.contiguous.1
      exact congrArg some hfirst

/-! ### The list and its index -/

/-- The index of a list that was read is exact, and it is the one that is filled while the list is
read. The list was read by going, for each instruction, through the place at which it begins: this
place is its address, without loss, and the instruction is a new entry in the index of those before
it. -/
theorem decode_indexed {length : UInt32} {state after : State} {list : InstructionList}
    (hrun : decode length state = .ok list after) :
    Indexed length list ∧ decodeIndexing length state = .ok (list, list.addressIndex) after ∧
      ∀ before instruction behind, list.toList = before ++ instruction :: behind →
        ∃ offset, offset < length.toNat ∧
          decode length state =
            decodeOnto length offset before.reverse ⟨state.cursor.advance offset, state.log⟩ ∧
          instruction.address = UInt32.ofNat offset ∧ instruction.address.toNat = offset ∧
          instruction.address ∉ addressIndex ⟨before⟩ ∧
          addressIndex ⟨before ++ [instruction]⟩ =
            (addressIndex ⟨before⟩).insert instruction.address before.length := by
  obtain ⟨_, ⟨⟨hlist, hsize⟩, -⟩, -⟩ :=
    (decode_reads length state list after.cursor rfl).mp ⟨_, hrun⟩
  refine ⟨hlist.indexed hsize, decodeIndexing_of_decode hrun, ?_⟩
  intro before instruction behind hsplit
  obtain ⟨offset, hlt, haddress, hloop⟩ := decodeOnto_stands_at hrun hsplit
  rw [Nat.zero_add] at hlt haddress hloop
  rw [List.append_nil] at hloop
  have hexact : instruction.address.toNat = offset := by
    have hbound := length.toNat_lt
    rw [haddress, UInt32.toNat_ofNat']
    omega
  refine ⟨offset, hlt, hloop, haddress, hexact, ?_, addressIndex_concat before instruction⟩
  rw [mem_addressIndex_iff]
  rintro ⟨other, hother, hsame⟩
  have hincreasing := hlist.contiguous.increasing
  rw [hsplit, List.map_append, List.map_cons, List.pairwise_append] at hincreasing
  have hbefore := hincreasing.2.2 other.address (List.mem_map_of_mem hother)
    instruction.address List.mem_cons_self
  exact absurd hsame (UInt32.ne_of_lt hbefore)

/-- In the code with a switch and wider operands, the wider operands begin at the twentieth byte. No
instruction begins within the switch or behind the code. -/
theorem jumbled_indexed :
    ∃ list after, decode 32 (.start (.ofBytes jumbled)) = .ok list after ∧
      list.addressIndex.size = 5 ∧ list.indexOf? 20 = some 2 ∧ list.indexOf? 2 = none ∧
      list.indexOf? 32 = none := by
  have hanswer : (match decode 32 (.start (.ofBytes jumbled)) with
      | .ok list _ => some (list.toList.map Instruction.address)
      | .error .. => none) = some [0, 1, 20, 26, 31] := by decide +kernel
  cases hrun : decode 32 (.start (.ofBytes jumbled)) with
  | error error after =>
    rw [hrun] at hanswer
    cases hanswer
  | ok list after =>
    rw [hrun] at hanswer
    have haddresses := Option.some_inj.mp hanswer
    obtain ⟨hindexed, -⟩ := decode_indexed hrun
    have hcount : list.toList.length = 5 := by
      rw [← List.length_map Instruction.address, haddresses]
      rfl
    refine ⟨list, after, rfl, hindexed.size_eq.trans hcount, ?_, ?_, ?_⟩
    · refine (hindexed.indexOf?_eq_some_iff 20 2).mpr ⟨by omega, ?_⟩
      have hplace : (list.toList.map Instruction.address)[2]? = some 20 := by
        rw [haddresses]
        rfl
      obtain ⟨_, hfound⟩ := List.getElem?_eq_some_iff.mp hplace
      rwa [List.getElem_map] at hfound
    · refine (hindexed.indexOf?_eq_none_iff 2).mpr fun instruction hinstruction haddress ↦ ?_
      have hmember := List.mem_map_of_mem (f := Instruction.address) hinstruction
      rw [haddresses, haddress] at hmember
      exact absurd hmember (by decide)
    · exact hindexed.indexOf?_of_le 32 (UInt32.le_refl 32)

end ClassFormat.InstructionList
