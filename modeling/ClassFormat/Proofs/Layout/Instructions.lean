import ClassFormat.Proofs.Kinds
import ClassFormat.Proofs.Layout
import Mathlib.Algebra.GroupWithZero.Nat

/-!
# The layout of instructions

An instruction is written as its opcode and its operands. A branch is written as the distance from
the instruction to the target, the operands of a switch begin at an address that four divides, and
the bytes before them are any bytes, as are the reserved bytes behind some calls.

`InstructionList.decode_reads` says that code of a declared length is read as instructions exactly
if these stand one behind the other from the first address on, can be written, and take that length.
-/

set_option autoImplicit false
set_option relaxedAutoImplicit false

namespace ClassFormat

open Decoder

variable {depth : Nat}

/-! ### Targets -/

/-- Whether two bytes have room for the distance from an address to a target. -/
def Reaches (address : Nat) (target : Int) : Prop :=
  -0x8000 ≤ target - address ∧ target - address < 0x8000

/-- Whether four bytes have room for the distance from an address to a target. -/
def ReachesFar (address : Nat) (target : Int) : Prop :=
  -0x80000000 ≤ target - address ∧ target - address < 0x80000000

/-- The distance from an address to a target in two bytes. -/
def targetBytes (address : Nat) (target : Int) : List UInt8 :=
  BigEndian.ofUInt16 (Int16.ofInt (target - address)).toUInt16

/-- The distance from an address to a target in four bytes. -/
def wideTargetBytes (address : Nat) (target : Int) : List UInt8 :=
  BigEndian.ofUInt32 (Int32.ofInt (target - address)).toUInt32

@[simp] theorem length_targetBytes (address : Nat) (target : Int) :
    (targetBytes address target).length = 2 :=
  BigEndian.length_ofUInt16 _

@[simp] theorem length_wideTargetBytes (address : Nat) (target : Int) :
    (wideTargetBytes address target).length = 4 :=
  BigEndian.length_ofUInt32 _

/-- A target is read as its distance, by a number type that has just the distances that fit. -/
theorem Operands.distance_reads {ι : Type} {number : Decoder ι} {bytes : ι → List UInt8}
    {toInt : ι → Int} {ofInt : Int → ι} {low high : Int}
    (hnumber : Reads depth number fun distance ↦ exactly (bytes distance))
    (hlow : ∀ distance, low ≤ toInt distance) (hhigh : ∀ distance, toInt distance < high)
    (hofInt : ∀ distance, ofInt (toInt distance) = distance)
    (htoInt : ∀ {distance}, low ≤ distance → distance < high → toInt (ofInt distance) = distance)
    (address : Nat) :
    Reads depth (do return (address : Int) + toInt (← number)) fun target ↦
      provided (low ≤ target - address ∧ target - address < high)
        (exactly (bytes (ofInt (target - address)))) := by
  refine (hnumber.bind fun distance ↦ .pure _).congr fun target word ↦ ?_
  simp only [Language.mem_iSup, mem_exactly_mul, mem_provided, mem_exactly]
  constructor
  · rintro ⟨distance, _, ⟨rfl, rfl⟩, rfl⟩
    have hdistance : (address : Int) + toInt distance - address = toInt distance := by omega
    rw [hdistance, hofInt, List.append_nil]
    exact ⟨⟨hlow distance, hhigh distance⟩, rfl⟩
  · rintro ⟨⟨hleast, hmost⟩, rfl⟩
    refine ⟨ofInt (target - address), [], ⟨?_, rfl⟩, by rw [List.append_nil]⟩
    rw [htoInt hleast hmost]
    omega

theorem Operands.decodeTarget_reads (address : Nat) :
    Reads depth (decodeTarget address) fun target ↦
      provided (Reaches address target) (exactly (targetBytes address target)) :=
  distance_reads Reads.s2 Int16.le_toInt Int16.toInt_lt Int16.ofInt_toInt
    Int16.toInt_ofInt_of_le address

theorem Operands.decodeWideTarget_reads (address : Nat) :
    Reads depth (decodeWideTarget address) fun target ↦
      provided (ReachesFar address target) (exactly (wideTargetBytes address target)) :=
  distance_reads Reads.s4 Int32.le_toInt Int32.toInt_lt Int32.ofInt_toInt
    Int32.toInt_ofInt_of_le address

/-- A key and the distance to the target that belongs to it, four bytes each. -/
def pairBytes (address : Nat) (pair : Int32 × Int) : List UInt8 :=
  BigEndian.ofUInt32 pair.1.toUInt32 ++ wideTargetBytes address pair.2

/-! ### Operands -/

/-- The bytes between an address and the next one that four divides. They may be any. -/
def padding (address : Nat) : Language UInt8 :=
  words fun word ↦ word.length < 4 ∧ 4 ∣ address + word.length

theorem mem_padding {address : Nat} {word : List UInt8} :
    word ∈ padding address ↔ word.length = switchPadding address := by
  simp only [padding, mem_words, switchPadding]
  omega

theorem padding_reads (address : Nat) :
    Reads depth (skip (switchPadding address)) fun _ ↦ padding address :=
  (Reads.skip _).congr fun _ _ ↦ mem_padding.symm

/-- The opcode that stands behind the one that makes operands wide. -/
def WideOperation.opcode : WideOperation → UInt8
  | onVariable opcode _ => opcode
  | increment .. => Opcode.incrementByte

/-- What is written behind that opcode. -/
def WideOperation.payload : WideOperation → List UInt8
  | onVariable _ index => BigEndian.ofUInt16 index
  | increment index amount => BigEndian.ofUInt16 index ++ BigEndian.ofUInt16 amount.toUInt16

/-- The bytes of an operation with wider operands. -/
def WideOperation.toBytes (operation : WideOperation) : List UInt8 :=
  operation.opcode :: operation.payload

/-- Whether an operation with wider operands can be written: adding a constant needs one. -/
def WideOperation.Fits : WideOperation → Prop
  | onVariable opcode _ => opcode ≠ Opcode.incrementByte
  | increment .. => True

namespace Operands

/-- How the operands of the instruction at an address are written. -/
def layout (address : Nat) : {form : Form} → Operands form → Language UInt8
  | _, .plain => exactly []
  | _, .signedByte value => exactly [value.toUInt8]
  | _, .signedShort value => exactly (BigEndian.ofUInt16 value.toUInt16)
  | _, .byteIndex place => exactly [place]
  | _, .index place => exactly (BigEndian.ofUInt16 place)
  | _, .increment place amount => exactly [place, amount.toUInt8]
  | _, .branch target => exactly (targetBytes address target)
  | _, .wideBranch target => exactly (wideTargetBytes address target)
  | _, .interfaceCall place count => exactly (BigEndian.ofUInt16 place ++ [count]) * blank 1
  | _, .dynamicCall place => exactly (BigEndian.ofUInt16 place) * blank 2
  | _, .arrayType element => exactly [element.code]
  | _, .multiArray place dimensions => exactly (BigEndian.ofUInt16 place ++ [dimensions])
  | _, .tableSwitch fallback low high targets =>
    padding (address + 1) * exactly (wideTargetBytes address fallback ++
      (BigEndian.ofUInt32 low.toUInt32 ++ (BigEndian.ofUInt32 high.toUInt32 ++
        targets.flatMap (wideTargetBytes address))))
  | _, .lookupSwitch fallback pairs =>
    padding (address + 1) * exactly (wideTargetBytes address fallback ++
      (BigEndian.ofNat 4 pairs.length ++ pairs.flatMap (pairBytes address)))
  | _, .wide operation => exactly operation.toBytes

/-- Whether the operands of the instruction at an address can be written: targets are not too far,
and a switch over a range of keys has one target for each of them. -/
def Fits (address : Nat) : {form : Form} → Operands form → Prop
  | _, .branch target => Reaches address target
  | _, .wideBranch target => ReachesFar address target
  | _, .tableSwitch fallback low high targets =>
    ReachesFar address fallback ∧ targets.length = (high.toInt - low.toInt + 1).toNat ∧
      ∀ target ∈ targets, ReachesFar address target
  | _, .lookupSwitch fallback pairs =>
    ReachesFar address fallback ∧ pairs.length < 0x100000000 ∧
      ∀ pair ∈ pairs, ReachesFar address pair.2
  | _, .wide operation => operation.Fits
  | _, _ => True

/-- How many bytes the operands of the instruction at an address take. -/
def size (address : Nat) : {form : Form} → Operands form → Nat
  | _, .plain => 0
  | _, .signedByte _ | _, .byteIndex _ | _, .arrayType _ => 1
  | _, .signedShort _ | _, .index _ | _, .increment .. | _, .branch _ => 2
  | _, .multiArray .. => 3
  | _, .wideBranch _ | _, .interfaceCall .. | _, .dynamicCall _ => 4
  | _, .tableSwitch _ _ _ targets => switchPadding (address + 1) + 12 + 4 * targets.length
  | _, .lookupSwitch _ pairs => switchPadding (address + 1) + 8 + 8 * pairs.length
  | _, .wide operation => operation.toBytes.length

theorem length_of_mem_layout {address : Nat} {form : Form} {operands : Operands form}
    {word : List UInt8} (hword : word ∈ operands.layout address) :
    word.length = operands.size address := by
  cases operands with
  | tableSwitch fallback low high targets =>
    obtain ⟨pad, hpad, _, rfl, rfl⟩ := Language.mem_mul.mp hword
    simp [size, mem_padding.mp hpad, List.length_flatMap]
    omega
  | lookupSwitch fallback pairs =>
    obtain ⟨pad, hpad, _, rfl, rfl⟩ := Language.mem_mul.mp hword
    simp [size, mem_padding.mp hpad, List.length_flatMap, pairBytes]
    omega
  | interfaceCall place count | dynamicCall place =>
    obtain ⟨rest, hrest, rfl⟩ := mem_exactly_mul.mp hword
    simp [size, mem_blank.mp hrest]
  | _ =>
    obtain rfl := mem_exactly.mp hword
    simp [size]

theorem decodeArrayType_reads :
    Reads depth decodeArrayType fun element ↦ exactly [element.code] := by
  refine .offset_bind fun start ↦ (Reads.tagged_of_kind ArrayType.code (fun _ ↦ exactly [])
    (fun code ↦ ?_) fun element ↦ ?_).congr fun element word ↦ by simp
  · split
    · rename_i element helement
      exact .pure ((ArrayType.ofCode?_eq_some_iff code element).mp helement)
    · exact .failAt start _
  · rw [(ArrayType.ofCode?_eq_some_iff element.code element).mpr rfl]
    exact ⟨_, .pure element, fun word ↦ by simp⟩

theorem decodePair_reads (address : Nat) :
    Reads depth (do return (← s4, ← decodeWideTarget address)) fun pair ↦
      provided (ReachesFar address pair.2) (exactly (pairBytes address pair)) := by
  refine (Reads.s4.bind fun key ↦ (decodeWideTarget_reads address).bind fun target ↦
    .pure (key, target)).congr fun pair word ↦ ?_
  obtain ⟨key, target⟩ := pair
  simp [pairBytes, Language.mem_iSup]

theorem decodeWide_reads :
    Reads depth decodeWide fun operation ↦
      provided operation.Fits (exactly operation.toBytes) := by
  refine (Reads.tagged_of_kind WideOperation.opcode
    (fun operation ↦ provided operation.Fits (exactly operation.payload))
    (fun opcode ↦ .bind fun index ↦ ?_) fun operation ↦ ?_).congr
    fun operation word ↦ by simp [WideOperation.toBytes]
  · by_cases hopcode : opcode = Opcode.incrementByte
    · rw [if_pos hopcode]
      exact .bind fun _ ↦ .pure hopcode.symm
    · rw [if_neg hopcode]
      exact .pure rfl
  · by_cases hopcode : operation.opcode = Opcode.incrementByte
    · simp only [if_pos hopcode]
      refine ⟨_, Reads.u2.bind fun index ↦ Reads.s2.bind fun amount ↦ .pure _, fun word ↦ ?_⟩
      cases operation with
      | onVariable opcode index =>
        have hunfit : ¬(WideOperation.onVariable opcode index).Fits := fun hfits ↦ hfits hopcode
        simp [hunfit, Language.mem_iSup]
      | increment index amount =>
        simp [WideOperation.Fits, WideOperation.payload, Language.mem_iSup]
    · simp only [if_neg hopcode]
      refine ⟨_, Reads.u2.bind fun index ↦ .pure _, fun word ↦ ?_⟩
      cases operation with
      | onVariable opcode index =>
        have hfits : (WideOperation.onVariable opcode index).Fits := hopcode
        simp [hfits, WideOperation.opcode, WideOperation.payload, Language.mem_iSup]
      | increment index amount => exact absurd rfl hopcode

theorem decode_reads (address : Nat) (form : Form) :
    Reads depth (decode address form) fun operands ↦
      provided (operands.Fits address) (operands.layout address) := by
  cases form with
  | plain =>
    refine Reads.congr (.pure _) fun operands word ↦ ?_
    cases operands
    simp [Fits, layout]
  | signedByte =>
    refine Reads.congr (Reads.s1.bind fun value ↦ .pure _) fun operands word ↦ ?_
    cases operands
    simp [Fits, layout, Language.mem_iSup]
  | signedShort =>
    refine Reads.congr (Reads.s2.bind fun value ↦ .pure _) fun operands word ↦ ?_
    cases operands
    simp [Fits, layout, Language.mem_iSup]
  | byteIndex =>
    refine Reads.congr (Reads.u1.bind fun place ↦ .pure _) fun operands word ↦ ?_
    cases operands
    simp [Fits, layout, Language.mem_iSup]
  | index =>
    refine Reads.congr (Reads.u2.bind fun place ↦ .pure _) fun operands word ↦ ?_
    cases operands
    simp [Fits, layout, Language.mem_iSup]
  | increment =>
    refine Reads.congr (Reads.u1.bind fun place ↦ Reads.s1.bind fun amount ↦ .pure _)
      fun operands word ↦ ?_
    cases operands
    simp [Fits, layout, Language.mem_iSup]
  | branch =>
    refine Reads.congr ((decodeTarget_reads address).bind fun target ↦ .pure _)
      fun operands word ↦ ?_
    cases operands
    simp [Fits, layout, Language.mem_iSup]
  | wideBranch =>
    refine Reads.congr ((decodeWideTarget_reads address).bind fun target ↦ .pure _)
      fun operands word ↦ ?_
    cases operands
    simp [Fits, layout, Language.mem_iSup]
  | interfaceCall =>
    refine Reads.congr (Reads.u2.bind fun place ↦ Reads.u1.bind fun count ↦
      (Reads.skip 1).bind fun _ ↦ .pure _) fun operands word ↦ ?_
    cases operands
    simp [Fits, layout, Language.mem_iSup]
  | dynamicCall =>
    refine Reads.congr (Reads.u2.bind fun place ↦ (Reads.skip 2).bind fun _ ↦ .pure _)
      fun operands word ↦ ?_
    cases operands
    simp [Fits, layout, Language.mem_iSup]
  | arrayType =>
    refine Reads.congr (decodeArrayType_reads.bind fun element ↦ .pure _) fun operands word ↦ ?_
    cases operands
    simp [Fits, layout, Language.mem_iSup]
  | multiArray =>
    refine Reads.congr (Reads.u2.bind fun place ↦ Reads.u1.bind fun dimensions ↦ .pure _)
      fun operands word ↦ ?_
    cases operands
    simp [Fits, layout, Language.mem_iSup]
  | tableSwitch =>
    refine Reads.congr ((padding_reads (address + 1)).bind fun _ ↦
      (decodeWideTarget_reads address).bind fun fallback ↦ Reads.s4.bind fun low ↦
      Reads.s4.bind fun high ↦ ((decodeWideTarget_reads address).times _).bind fun targets ↦
      .pure _) fun operands word ↦ ?_
    cases operands
    simp [Fits, layout, Language.mem_iSup, Language.mem_mul, sequence_provided, sequence_exactly,
      tableLength]
    grind
  | lookupSwitch =>
    refine Reads.congr ((padding_reads (address + 1)).bind fun _ ↦
      (decodeWideTarget_reads address).bind fun fallback ↦
      .u4_bind_sized_bind (fun count ↦ (decodePair_reads address).times count.toNat) fun _ pairs ↦
      .pure _) fun operands word ↦ ?_
    cases operands
    simp [Fits, layout, Language.mem_iSup, Language.mem_mul, sequence_provided, sequence_exactly]
    grind
  | wide =>
    refine Reads.congr (decodeWide_reads.bind fun operation ↦ .pure _) fun operands word ↦ ?_
    cases operands
    simp [Fits, layout, Language.mem_iSup]

end Operands

/-! ### Instructions -/

theorem Opcode.decode_reads : Reads depth Opcode.decode fun opcode ↦ exactly [opcode.byte] := by
  refine .offset_bind fun start ↦ (Reads.tagged_of_kind Opcode.byte (fun _ ↦ exactly [])
    (fun byte ↦ ?_) fun opcode ↦ ?_).congr fun opcode word ↦ by simp
  · split
    · rename_i opcode hopcode
      exact .pure ((Opcode.ofByte?_eq_some_iff byte opcode).mp hopcode)
    · exact .failAt start _
  · rw [(Opcode.ofByte?_eq_some_iff opcode.byte opcode).mpr rfl]
    exact ⟨_, .pure opcode, fun word ↦ by simp⟩

namespace Instruction

/-- How an instruction is written. -/
def layout (instruction : Instruction) : Language UInt8 :=
  exactly [instruction.operation.opcode.byte] *
    instruction.operation.operands.layout instruction.address.toNat

/-- Whether an instruction can be written. -/
def Fits (instruction : Instruction) : Prop :=
  instruction.operation.operands.Fits instruction.address.toNat

/-- How many bytes an instruction takes. -/
def size (instruction : Instruction) : Nat :=
  1 + instruction.operation.operands.size instruction.address.toNat

theorem length_of_mem_layout {instruction : Instruction} {word : List UInt8}
    (hword : word ∈ instruction.layout) : word.length = instruction.size := by
  obtain ⟨rest, hrest, rfl⟩ := mem_exactly_mul.mp hword
  rw [size, ← Operands.length_of_mem_layout hrest, List.length_append, List.length_singleton]

end Instruction

namespace InstructionList

/-- Whether instructions stand one behind the other, the first of them at an address. -/
def Contiguous : (address : Nat) → List Instruction → Prop
  | _, [] => True
  | address, instruction :: instructions =>
    instruction.address.toNat = address ∧ Contiguous (address + instruction.size) instructions

/-- How many bytes the instructions of a list take. -/
def size (list : InstructionList) : Nat :=
  (list.toList.map Instruction.size).sum

theorem size_cons (instruction : Instruction) (instructions : List Instruction) :
    size ⟨instruction :: instructions⟩ = instruction.size + size ⟨instructions⟩ := by
  simp [size]

/-- How a list of instructions is written. -/
def layout (list : InstructionList) : Language UInt8 :=
  sequence Instruction.layout list.toList

/-- A list of instructions is well formed if they stand one behind the other from the first address
on and can be written. The index of their addresses is made from them, so that it needs no
condition (`WellFormed.indexOf?_eq_some_iff`). -/
structure WellFormed (list : InstructionList) : Prop where
  contiguous : Contiguous 0 list.toList
  fits : ∀ instruction ∈ list.toList, instruction.Fits

theorem length_of_mem_layout {list : InstructionList} {word : List UInt8}
    (hword : word ∈ list.layout) : word.length = list.size := by
  obtain ⟨instructions⟩ := list
  induction instructions generalizing word with
  | nil => simp [mem_exactly.mp hword, size]
  | cons instruction instructions ih =>
    obtain ⟨first, hfirst, rest, hrest, rfl⟩ := Language.mem_mul.mp hword
    rw [List.length_append, Instruction.length_of_mem_layout hfirst, ih hrest, size_cons]

/-- Whether instructions fill the bytes between two addresses: they stand one behind the other, and
each of them can be written. -/
structure Fills (address stop : Nat) (instructions : List Instruction) : Prop where
  contiguous : Contiguous address instructions
  fits : ∀ instruction ∈ instructions, instruction.Fits
  size_eq : address + size ⟨instructions⟩ = stop

theorem fills_nil {address stop : Nat} : Fills address stop [] ↔ address = stop :=
  ⟨fun hfills ↦ hfills.size_eq, fun hstop ↦ ⟨trivial, by simp, hstop⟩⟩

theorem fills_cons {address stop : Nat} {instruction : Instruction}
    {instructions : List Instruction} :
    Fills address stop (instruction :: instructions) ↔
      instruction.address.toNat = address ∧ instruction.Fits ∧
        Fills (address + instruction.size) stop instructions := by
  constructor
  · rintro ⟨⟨haddress, hcontiguous⟩, hfits, hsize⟩
    obtain ⟨hfirst, hrest⟩ := List.forall_mem_cons.mp hfits
    rw [size_cons, ← Nat.add_assoc] at hsize
    exact ⟨haddress, hfirst, hcontiguous, hrest, hsize⟩
  · rintro ⟨haddress, hfirst, hcontiguous, hrest, hsize⟩
    rw [Nat.add_assoc, ← size_cons] at hsize
    exact ⟨⟨haddress, hcontiguous⟩, List.forall_mem_cons.mpr ⟨hfirst, hrest⟩, hsize⟩

theorem Fills.le_stop {address stop : Nat} {instructions : List Instruction}
    (hfills : Fills address stop instructions) : address ≤ stop :=
  hfills.size_eq ▸ Nat.le_add_right ..

theorem decodeOnto_reads (length : UInt32) (address : Nat) (done : List Instruction) :
    Reads depth (decodeOnto length address done) fun list ↦ words fun word ↦
      ∃ instructions, list = ⟨done.reverse ++ instructions⟩ ∧
        Fills address length.toNat instructions ∧ word ∈ layout ⟨instructions⟩ := by
  induction address, done using decodeOnto.induct length with
  | case1 address done hbefore ih =>
    have haddress : (UInt32.ofNat address).toNat = address := by
      have hlength := length.toNat_lt
      rw [UInt32.toNat_ofNat']
      omega
    rw [decodeOnto, if_pos hbefore]
    refine (Opcode.decode_reads.bind fun opcode ↦
      (Operands.decode_reads address opcode.form).measured.bind fun sized ↦
        ih opcode sized.1 sized.2).congr fun list word ↦ ?_
    simp only [Language.mem_iSup, mem_exactly_mul, mem_words_mul, mem_words, mem_provided]
    constructor
    · rintro ⟨opcode, _, ⟨⟨operands, count⟩, first, ⟨⟨hfits, hfirst⟩, rfl⟩, rest,
        ⟨instructions, rfl, hfills, hrest⟩, rfl⟩, rfl⟩
      have hinstruction : [opcode.byte] ++ first ∈
          Instruction.layout ⟨UInt32.ofNat address, opcode, operands⟩ :=
        mem_exactly_mul.mpr ⟨first, by rwa [haddress], rfl⟩
      have hsize := Instruction.length_of_mem_layout hinstruction
      rw [List.length_append, List.length_singleton] at hsize
      refine ⟨⟨UInt32.ofNat address, opcode, operands⟩ :: instructions, by simp,
        fills_cons.mpr ⟨haddress, ?_, ?_⟩, ?_⟩
      · rwa [Instruction.Fits, haddress]
      · rwa [← hsize, ← Nat.add_assoc]
      · rw [← List.append_assoc]
        exact Language.append_mem_mul hinstruction hrest
    · rintro ⟨instructions, rfl, hfills, hword⟩
      cases instructions with
      | nil => exact absurd (fills_nil.mp hfills) (Nat.ne_of_lt hbefore)
      | cons instruction instructions =>
        obtain ⟨place, opcode, operands⟩ := instruction
        obtain ⟨rfl, hfits, hrest⟩ := fills_cons.mp hfills
        obtain ⟨_, hinstruction, rest, hbehind, rfl⟩ := Language.mem_mul.mp hword
        obtain ⟨first, hfirst, rfl⟩ := mem_exactly_mul.mp hinstruction
        rw [Instruction.size, ← Operands.length_of_mem_layout hfirst, ← Nat.add_assoc] at hrest
        refine ⟨opcode, first ++ rest, ⟨⟨operands, first.length⟩, first, ⟨⟨hfits, hfirst⟩, rfl⟩,
          rest, ⟨instructions, ?_, hrest, hbehind⟩, rfl⟩, by simp⟩
        simp
  | case2 done hbefore =>
    rw [decodeOnto, if_neg hbefore, if_pos rfl]
    refine (Reads.pure _).congr fun list word ↦ ?_
    simp only [mem_provided, mem_exactly, mem_words]
    constructor
    · rintro ⟨rfl, rfl⟩
      exact ⟨[], by simp, fills_nil.mpr rfl, rfl⟩
    · rintro ⟨instructions, rfl, hfills, hword⟩
      cases instructions with
      | nil => exact ⟨by simp, hword⟩
      | cons instruction instructions =>
        have hstop := (fills_cons.mp hfills).2.2.le_stop
        rw [Instruction.size] at hstop
        omega
  | case3 address done hbefore hend =>
    rw [decodeOnto, if_neg hbefore, if_neg hend]
    refine (Reads.fail _).congr fun list word ↦ ?_
    simp only [notMem_zero, mem_words, false_iff]
    rintro ⟨instructions, -, hfills, -⟩
    have hstop := hfills.le_stop
    omega

theorem decode_reads (length : UInt32) :
    Reads depth (decode length) fun list ↦
      provided (list.WellFormed ∧ list.size = length.toNat) list.layout := by
  refine (decodeOnto_reads length 0 []).congr fun list word ↦ ?_
  simp only [mem_words, mem_provided, List.reverse_nil, List.nil_append]
  constructor
  · rintro ⟨instructions, rfl, hfills, hword⟩
    have hsize := hfills.size_eq
    rw [Nat.zero_add] at hsize
    exact ⟨⟨⟨hfills.contiguous, hfills.fits⟩, hsize⟩, hword⟩
  · rintro ⟨⟨hlist, hsize⟩, hword⟩
    exact ⟨list.toList, rfl, ⟨hlist.contiguous, hlist.fits, by rwa [Nat.zero_add]⟩, hword⟩

/-! ### The index of addresses -/

theorem Contiguous.le_address {address : Nat} {instructions : List Instruction}
    (hcontiguous : Contiguous address instructions) :
    ∀ instruction ∈ instructions, address ≤ instruction.address.toNat := by
  induction instructions generalizing address with
  | nil => simp
  | cons first instructions ih =>
    obtain ⟨haddress, hrest⟩ := hcontiguous
    refine List.forall_mem_cons.mpr ⟨haddress.ge, fun instruction hinstruction ↦ ?_⟩
    have hbehind := ih hrest instruction hinstruction
    omega

/-- Instructions that stand one behind the other have increasing addresses. -/
theorem Contiguous.increasing {address : Nat} {instructions : List Instruction}
    (hcontiguous : Contiguous address instructions) :
    (instructions.map Instruction.address).Pairwise (· < ·) := by
  induction instructions generalizing address with
  | nil => exact .nil
  | cons first instructions ih =>
    obtain ⟨haddress, hrest⟩ := hcontiguous
    refine List.pairwise_cons.mpr ⟨fun other hother ↦ ?_, ih hrest⟩
    obtain ⟨second, hsecond, rfl⟩ := List.mem_map.mp hother
    have hbehind := hrest.le_address second hsecond
    rw [Instruction.size] at hbehind
    rw [UInt32.lt_iff_toNat_lt]
    omega

theorem Contiguous.nodup_addresses {address : Nat} {instructions : List Instruction}
    (hcontiguous : Contiguous address instructions) :
    (instructions.map Instruction.address).Nodup :=
  hcontiguous.increasing.imp UInt32.ne_of_lt

theorem addressIndex_eq (list : InstructionList) :
    list.addressIndex = .ofList (list.toList.map Instruction.address).zipIdx := by
  rw [addressIndex, Std.HashMap.ofList_eq_insertMany_empty, List.zipIdx_map]
  generalize (∅ : Std.HashMap UInt32 Nat) = index
  induction list.toList.zipIdx generalizing index with
  | nil => rw [List.map_nil, Std.HashMap.insertMany_nil, List.foldl_nil]
  | cons entry entries ih =>
    rw [List.map_cons, Prod.map, Std.HashMap.insertMany_cons, ← ih, List.foldl_cons]
    rfl

/-- Different addresses are different keys of the index. -/
theorem distinct_keys {addresses : List UInt32} (hnodup : addresses.Nodup) :
    addresses.zipIdx.Pairwise fun first second ↦ (first.1 == second.1) = false := by
  rw [← List.zipIdx_map_fst 0 addresses, List.Nodup, List.pairwise_map] at hnodup
  exact hnodup.imp beq_false_of_ne

/-- The index of a well-formed list leads from the address of every instruction to its place, and
from no other address anywhere. -/
theorem WellFormed.indexOf?_eq_some_iff {list : InstructionList} (hlist : list.WellFormed)
    {address : UInt32} {place : Nat} :
    list.indexOf? address = some place ↔
      (list.toList.map Instruction.address)[place]? = some address := by
  rw [indexOf?, addressIndex_eq]
  have hdistinct := distinct_keys hlist.contiguous.nodup_addresses
  generalize list.toList.map Instruction.address = addresses at hdistinct
  have hfound {place : Nat} {address : UInt32} (hplace : addresses[place]? = some address) :
      (Std.HashMap.ofList addresses.zipIdx)[address]? = some place :=
    Std.HashMap.getElem?_ofList_of_mem BEq.rfl hdistinct (List.mem_zipIdx_iff_getElem?.mpr hplace)
  refine ⟨fun hindex ↦ ?_, hfound⟩
  by_cases hmember : address ∈ addresses
  · obtain ⟨other, hother⟩ := List.mem_iff_getElem?.mp hmember
    obtain rfl := Option.some_inj.mp ((hfound hother).symm.trans hindex)
    exact hother
  · rw [Std.HashMap.getElem?_ofList_of_contains_eq_false (by simpa using hmember)] at hindex
    cases hindex

end InstructionList

end ClassFormat
