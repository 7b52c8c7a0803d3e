import ClassFormat.Proofs.Extension
import ClassFormat.Proofs.Layout.Attributes
import ClassFormat.Proofs.Nesting

/-!
# How deep attributes may lie

Attributes lie within attributes through method bodies. `Attribute.Occurs` says of an attribute that
it occurs inside another one, at which position in the bytes, and how many method bodies enclose it
there. The bytes before it are counted by the sizes of what they hold, as an attribute takes the
same number of bytes in whichever way it is written (`Attribute.length_of_mem_layout`).

An attribute whose bytes are all right is read again if no attribute in it lies too deep, and
otherwise the reading stops at the first one that does (`Attribute.decodeWithin_settles`). The
frames around it leave the error as it is, and attributes beside it make no difference. How many
levels there are is settled by the cursor, which gives the main statement,
`Attribute.decode_within_nesting`.
-/

set_option autoImplicit false
set_option relaxedAutoImplicit false

namespace ClassFormat.Attribute

open Decoder

variable {pool : ConstantPool}

/-! ### Sizes -/

mutual

/-- How many bytes the body of an attribute takes. -/
def bodySize : Attribute → Nat
  | constantValue index | signature index | sourceFile index | nestHost index =>
    (BigEndian.ofUInt16 index).length
  | code body => codeSize body
  | stackMapTable frames => (withCount StackMapFrame.toBytes frames).length
  | exceptions classes | nestMembers classes | permittedSubclasses classes =>
    (withCount BigEndian.ofUInt16 classes).length
  | bootstrapMethods methods => (withCount BootstrapMethod.toBytes methods).length
  | innerClasses classes => (withCount InnerClass.toBytes classes).length
  | enclosingMethod classIndex methodIndex =>
    (BigEndian.ofUInt16 classIndex ++ BigEndian.ofUInt16 methodIndex).length
  | synthetic | deprecated => 0
  | visibleAnnotations annotations => (withCount Annotation.toBytes annotations).length
  | invisibleAnnotations elements =>
    (withCount (Element.toBytes ElementValue.toBytes) elements).length
  | visibleParameterAnnotations parameters | invisibleParameterAnnotations parameters =>
    (withShortCount (withCount Annotation.toBytes) parameters).length
  | annotationDefault value => value.toBytes.length
  | methodParameters parameters => (withShortCount MethodParameter.toBytes parameters).length
  | sourceDebugExtension bytes => (BigEndian.ofNat 4 bytes.length ++ bytes).length
  | lineNumberTable lines => (withCount LineNumber.toBytes lines).length
  | localVariableTable entries | localVariableTypeTable entries =>
    (withCount LocalVariable.toBytes entries).length

/-- How many bytes the body of a method takes. -/
def codeSize : CodeBody Attribute → Nat
  | ⟨_, _, instructions, handlers, attributes⟩ =>
    10 + instructions.size + (withCount ExceptionHandler.toBytes handlers).length +
      listSize attributes

/-- How many bytes several attributes take. -/
def listSize : List Attribute → Nat
  | [] => 0
  | item :: items => 6 + bodySize item + listSize items

end

/-- How many bytes an attribute takes. -/
def size (item : Attribute) : Nat :=
  6 + item.bodySize

theorem length_of_mem_framed {name word : List UInt8} {body : Language UInt8}
    (hword : word ∈ framed pool name body) :
    ∃ bytes ∈ body, word.length = 6 + bytes.length := by
  obtain ⟨nameIndex, length, bytes, hbytes, -, -, rfl⟩ := hword
  exact ⟨bytes, hbytes, by rw [List.length_append, length_header]⟩

/-- The parts of the body of a method. -/
theorem exists_of_mem_codeLayout {word : List UInt8} {body : CodeBody Attribute}
    (hword : word ∈ codeLayout pool body) :
    ∃ code ∈ body.instructions.layout, ∃ rest ∈ listLayout pool body.attributes,
      word = BigEndian.ofUInt16 body.maxStack ++ (BigEndian.ofUInt16 body.maxLocals ++
        (BigEndian.ofNat 4 body.instructions.size ++ (code ++
          (withCount ExceptionHandler.toBytes body.handlers ++
            (BigEndian.ofNat 2 body.attributes.length ++ rest))))) := by
  obtain ⟨maxStack, maxLocals, instructions, handlers, attributes⟩ := body
  obtain ⟨_, hbehind, rfl⟩ := mem_exactly_mul.mp hword
  obtain ⟨code, hcode, _, hend, rfl⟩ := Language.mem_mul.mp hbehind
  obtain ⟨rest, hrest, rfl⟩ := mem_exactly_mul.mp hend
  exact ⟨code, hcode, rest, hrest, by simp only [List.append_assoc]⟩

mutual

theorem length_of_mem_bodyLayout {word : List UInt8} (item : Attribute)
    (hword : word ∈ bodyLayout pool item) : word.length = bodySize item := by
  cases item with
  | code body => exact length_of_mem_codeLayout body hword
  | _ => exact congrArg List.length hword

theorem length_of_mem_codeLayout {word : List UInt8} (body : CodeBody Attribute)
    (hword : word ∈ codeLayout pool body) : word.length = codeSize body := by
  obtain ⟨code, hcode, rest, hrest, rfl⟩ := exists_of_mem_codeLayout hword
  obtain ⟨maxStack, maxLocals, instructions, handlers, attributes⟩ := body
  have hsize : code.length = instructions.size := InstructionList.length_of_mem_layout hcode
  have hnested := length_of_mem_listLayout attributes hrest
  simp only [List.length_append, BigEndian.length_ofUInt16, BigEndian.length_ofNat, codeSize]
  omega

theorem length_of_mem_listLayout {word : List UInt8} (items : List Attribute)
    (hword : word ∈ listLayout pool items) : word.length = listSize items := by
  cases items with
  | nil => exact congrArg List.length hword
  | cons item items =>
    obtain ⟨first, hfirst, rest, hrest, rfl⟩ := Language.mem_mul.mp hword
    obtain ⟨bytes, hbytes, hlength⟩ := length_of_mem_framed hfirst
    rw [List.length_append, hlength, length_of_mem_bodyLayout item hbytes,
      length_of_mem_listLayout items hrest, listSize]

end

theorem length_of_mem_layout {word : List UInt8} {item : Attribute}
    (hword : word ∈ item.layout pool) : word.length = item.size := by
  obtain ⟨bytes, hbytes, hlength⟩ := length_of_mem_framed hword
  rw [hlength, length_of_mem_bodyLayout item hbytes, size]

/-- Several attributes take as many bytes as each of them. -/
theorem length_flatMap_of_entries {entries : List (Attribute × List UInt8)}
    (hentries : ∀ entry ∈ entries, entry.2 ∈ entry.1.layout pool) :
    (entries.flatMap Prod.snd).length = ((entries.map Prod.fst).map size).sum := by
  induction entries with
  | nil => rfl
  | cons entry entries ih =>
    obtain ⟨hentry, hentries⟩ := List.forall_mem_cons.mp hentries
    rw [List.flatMap_cons, List.length_append, ih hentries, length_of_mem_layout hentry,
      List.map_cons, List.map_cons, List.sum_cons]

/-! ### Attributes that occur in others -/

/-- How many bytes stand in an attribute `Code` before its own attributes. -/
def headSize (instructions : InstructionList) (handlers : List ExceptionHandler) : Nat :=
  16 + instructions.size + (withCount ExceptionHandler.toBytes handlers).length

/-- An attribute occurs in another one at a position of its bytes, and so many method bodies
enclose it. -/
inductive Occurs (inner : Attribute) : (item : Attribute) → (position enclosing : Nat) → Prop
  | here : Occurs inner inner 0 0
  | nested {maxStack maxLocals : UInt16} {instructions : InstructionList}
    {handlers : List ExceptionHandler} {before after : List Attribute} {item : Attribute}
    {position enclosing : Nat} (hitem : Occurs inner item position enclosing) :
    Occurs inner (code ⟨maxStack, maxLocals, instructions, handlers, before ++ item :: after⟩)
      (headSize instructions handlers + ((before.map size).sum + position)) (enclosing + 1)

/-- The positions of the attributes that so many method bodies enclose. -/
def positions (enclosing : Nat) (item : Attribute) : Set Nat :=
  {position | ∃ inner, Occurs inner item position enclosing}

/-- An attribute that method bodies enclose stands in attributes that fewer of them enclose. -/
theorem Occurs.nonempty_of_le {inner item : Attribute} {position enclosing fewer : Nat}
    (hinner : Occurs inner item position enclosing) (hfewer : fewer ≤ enclosing) :
    (item.positions fewer).Nonempty := by
  induction hinner generalizing fewer with
  | here =>
    obtain rfl := Nat.le_zero.mp hfewer
    exact ⟨0, inner, .here⟩
  | nested hitem ih =>
    cases fewer with
    | zero => exact ⟨0, _, .here⟩
    | succ fewer =>
      obtain ⟨_, _, hother⟩ := ih (Nat.le_of_succ_le_succ hfewer)
      exact ⟨_, _, hother.nested⟩

/-- An attribute that method bodies enclose is one of the attributes of the innermost of them. -/
theorem Occurs.exists_body {inner item : Attribute} {position enclosing : Nat}
    (hinner : Occurs inner item position (enclosing + 1)) :
    ∃ body position, Occurs (code body) item position enclosing ∧ inner ∈ body.attributes := by
  generalize hcount : enclosing + 1 = count at hinner
  induction hinner generalizing enclosing with
  | here => cases hcount
  | nested hitem ih =>
    obtain rfl := Nat.succ.inj hcount
    cases enclosing with
    | zero =>
      cases hitem
      exact ⟨_, 0, .here, List.mem_append_cons_self⟩
    | succ enclosing =>
      obtain ⟨body, position, hbody, hmember⟩ := ih rfl
      exact ⟨body, _, hbody.nested, hmember⟩

theorem positions_zero (item : Attribute) : item.positions 0 = {0} := by
  ext position
  constructor
  · rintro ⟨inner, hinner⟩
    cases hinner
    rfl
  · rintro rfl
    exact ⟨item, .here⟩

/-- Nothing lies within an attribute that is not `Code`. -/
theorem positions_of_kind_ne {item : Attribute} (enclosing : Nat) (hkind : item.kind ≠ .code) :
    item.positions (enclosing + 1) = ∅ := by
  ext position
  refine ⟨fun ⟨inner, hinner⟩ ↦ ?_, False.elim⟩
  cases hinner
  exact hkind rfl

/-- What lies within an attribute `Code` lies within its attributes. -/
theorem positions_code {body : CodeBody Attribute} {entries : List (Attribute × List UInt8)}
    (hvalues : entries.map Prod.fst = body.attributes)
    (hentries : ∀ entry ∈ entries, entry.2 ∈ entry.1.layout pool) (enclosing : Nat) :
    (code body).positions (enclosing + 1) =
      moved (headSize body.instructions body.handlers)
        (positionsIn Prod.snd (fun entry ↦ entry.1.positions enclosing) entries) := by
  obtain ⟨maxStack, maxLocals, instructions, handlers, attributes⟩ := body
  ext position
  simp only [moved, Set.mem_image, mem_positionsIn_iff]
  constructor
  · rintro ⟨inner, hinner⟩
    cases hinner with
    | nested hitem =>
      obtain ⟨before, behind, rfl, rfl, hbehind⟩ := List.map_eq_append_iff.mp hvalues
      obtain ⟨entry, after, rfl, rfl, rfl⟩ := List.map_eq_cons_iff.mp hbehind
      refine ⟨_, ⟨before, entry, after, _, rfl, ⟨inner, hitem⟩, rfl⟩, ?_⟩
      rw [length_flatMap_of_entries fun other hother ↦
        hentries other (List.mem_append_left _ hother)]
  · rintro ⟨_, ⟨before, entry, after, inside, rfl, ⟨inner, hinner⟩, rfl⟩, rfl⟩
    rw [List.map_append, List.map_cons] at hvalues
    cases hvalues
    rw [length_flatMap_of_entries fun other hother ↦
      hentries other (List.mem_append_left _ hother)]
    exact ⟨inner, hinner.nested⟩

/-- The attributes of a method body are written at its end, and what stands before them does not
depend on the pool. -/
theorem exists_head_of_mem_codeLayout {body : CodeBody Attribute} {bytes : List UInt8}
    (hbytes : bytes ∈ codeLayout pool body) :
    ∃ head rest, bytes = head ++ rest ∧
      6 + head.length = headSize body.instructions body.handlers ∧
      rest ∈ sequence (layout pool) body.attributes ∧
      ∀ pool', rest ∈ sequence (layout pool') body.attributes → bytes ∈ codeLayout pool' body := by
  obtain ⟨maxStack, maxLocals, instructions, handlers, attributes⟩ := body
  obtain ⟨_, hbehind, rfl⟩ := mem_exactly_mul.mp hbytes
  obtain ⟨code, hcode, _, hend, rfl⟩ := Language.mem_mul.mp hbehind
  obtain ⟨rest, hrest, rfl⟩ := mem_exactly_mul.mp hend
  have hsize := InstructionList.length_of_mem_layout hcode
  rw [listLayout_eq] at hrest
  refine ⟨BigEndian.ofUInt16 maxStack ++ BigEndian.ofUInt16 maxLocals ++
    BigEndian.ofNat 4 instructions.size ++ code ++ (withCount ExceptionHandler.toBytes handlers ++
      BigEndian.ofNat 2 attributes.length), rest, by simp only [List.append_assoc], ?_, hrest,
    fun pool' hrest' ↦ ?_⟩
  · simp only [List.length_append, BigEndian.length_ofUInt16, BigEndian.length_ofNat, hsize,
      headSize]
    omega
  · rw [← listLayout_eq] at hrest'
    exact mem_exactly_mul.mpr ⟨_, Language.mem_mul.mpr
      ⟨code, hcode, _, mem_exactly_mul.mpr ⟨rest, hrest', rfl⟩, rfl⟩, rfl⟩

/-- The attributes of a method body are written at the end of the attribute that holds it. -/
theorem exists_head_of_mem_layout {body : CodeBody Attribute} {word : List UInt8}
    (hword : word ∈ (code body).layout pool) :
    ∃ head rest, word = head ++ rest ∧ head.length = headSize body.instructions body.handlers ∧
      rest ∈ sequence (layout pool) body.attributes := by
  obtain ⟨nameIndex, length, bytes, hbytes, -, -, rfl⟩ := hword
  obtain ⟨head, rest, rfl, hhead, hrest, -⟩ := exists_head_of_mem_codeLayout hbytes
  refine ⟨header nameIndex length ++ head, rest, (List.append_assoc _ _ _).symm, ?_, hrest⟩
  rw [List.length_append, length_header, hhead]

/-- An attribute that occurs in another one is found in its bytes. -/
theorem Occurs.exists_prefix {inner item : Attribute} {position enclosing : Nat}
    {word : List UInt8} (hinner : Occurs inner item position enclosing)
    (hword : word ∈ item.layout pool) :
    ∃ word' ∈ inner.layout pool, word' <+: word.drop position := by
  induction hinner generalizing word with
  | here => exact ⟨word, hword, List.prefix_rfl⟩
  | nested hitem ih =>
    obtain ⟨head, _, rfl, hhead, hrest⟩ := exists_head_of_mem_layout hword
    obtain ⟨entries, hvalues, rfl, hentries⟩ := mem_sequence_iff.mp hrest
    obtain ⟨before, behind, rfl, rfl, hbehind⟩ := List.map_eq_append_iff.mp hvalues
    obtain ⟨entry, after, rfl, rfl, rfl⟩ := List.map_eq_cons_iff.mp hbehind
    have hbefore := length_flatMap_of_entries fun other hother ↦
      hentries other (List.mem_append_left _ hother)
    obtain ⟨word', hword', hprefix⟩ := ih (hentries entry List.mem_append_cons_self)
    refine ⟨word', hword', ?_⟩
    rw [← List.drop_drop, List.drop_left' hhead, List.flatMap_append, ← List.drop_drop,
      List.drop_left' hbefore, List.flatMap_cons]
    exact hprefix.trans ((List.prefix_append entry.2 _).drop _)

/-! ### Reading -/

/-- Reading the body of a method whose attributes are read in the given way. Its instructions and
its handlers hold no attributes. -/
theorem decodeCode_settles {cause : DecodeError.Cause} {nested : Decoder Attribute}
    {body : CodeBody Attribute} {word : List UInt8} {levels fits : Nat}
    (hfits : (code body).FitsWithin (fits + 1)) (hword : word ∈ codeLayout pool body)
    (hnested : ∀ item ∈ body.attributes, ∀ word ∈ item.layout pool,
      Settles cause nested item word (item.positions levels)) :
    ∃ deep, Settles cause (decodeCode nested) body word deep ∧
      (code body).positions (levels + 1) = moved 6 deep := by
  obtain ⟨hinstructions, hsize, hhandlers, hcount, -⟩ := hfits
  obtain ⟨bytes, hbytes, rest, hrest, rfl⟩ := exists_of_mem_codeLayout hword
  rw [listLayout_eq] at hrest
  obtain ⟨entries, hvalues, rfl, hentries⟩ := mem_sequence_iff.mp hrest
  obtain ⟨length, hlength⟩ := BigEndian.exists_uint32_iff.mpr hsize
  have hnumber : Settles cause u4 length (BigEndian.ofNat 4 body.instructions.size) ∅ :=
    .of_reads (fun depth ↦ .u4) (by rw [← hlength]; rfl)
  have hcode : Settles cause (bounded length.toNat (.codeLength length)
      (InstructionList.decode length)) body.instructions bytes ∅ :=
    .of_reads (fun depth ↦ instructions_reads length _) ⟨hlength.symm, hinstructions, hbytes⟩
  have htable : Settles cause (counted ExceptionHandler.decode) body.handlers
      (withCount ExceptionHandler.toBytes body.handlers) ∅ :=
    .of_reads (fun depth ↦ ExceptionHandler.decode_reads.counted)
      (by simp [sequence_exactly, withCount, hhandlers])
  have hlength' : entries.length = body.attributes.length := by
    rw [← hvalues, List.length_map]
  have hattributes : Settles cause (counted nested) (entries.map Prod.fst)
      (withCount Prod.snd entries)
      (moved 2 (positionsIn Prod.snd (fun entry ↦ entry.1.positions levels) entries)) := by
    refine .counted_map (hlength' ▸ hcount) fun entry hentry ↦ ?_
    have hmember : entry.1 ∈ body.attributes := hvalues ▸ List.mem_map_of_mem hentry
    exact hnested entry.1 hmember entry.2 (hentries entry hentry)
  rw [withCount, hvalues, hlength'] at hattributes
  have hall : Settles cause (decodeCode nested) _
      (BigEndian.ofUInt16 body.maxStack ++ (BigEndian.ofUInt16 body.maxLocals ++ _)) _ :=
    .u2_bind (.u2_bind (hnumber.bind (hcode.bind (htable.bind (hattributes.map
      (CodeBody.mk body.maxStack body.maxLocals body.instructions body.handlers))))))
  simp only [Set.empty_union, moved_moved, BigEndian.length_ofNat,
    InstructionList.length_of_mem_layout hbytes] at hall
  refine ⟨_, hall, ?_⟩
  rw [positions_code hvalues hentries, moved_moved, headSize]
  congr 1
  omega

/-- The frame of an attribute leaves an error of the limit as it is. -/
theorem decodeFramed_settles {nested : Decoder Attribute} {start limit : Nat} {kind : Kind}
    {length : UInt32} {item : Attribute} {bytes : List UInt8} {deep : Set Nat}
    (hbytes : bytes.length = length.toNat)
    (hbody : Settles (.nesting limit) (decodeBody nested kind) item bytes deep) :
    Settles (.nesting limit) (decodeFramed nested start kind.nameBytes length) item bytes
      deep := by
  intro state hbegins
  have hsettled := hbody ⟨state.cursor.window bytes,
    state.log.push (.attributeBody kind.name length start)⟩ List.prefix_rfl
  rw [decodeFramed_nameBytes hbytes hbegins]
  generalize decodeBody nested kind _ = result at hsettled
  cases hsettled with
  | @read log hdeep =>
    have hleft : ((state.cursor.window bytes).advance bytes.length).remaining = 0 := by
      simp [Cursor.remaining]
    dsimp only
    rw [if_pos hleft, ← hbytes]
    exact .read hdeep
  | @refused position after hleast hposition => exact .refused hleast hposition

/-- The header of an attribute stands before the positions in its body. -/
theorem decodeWithin_succ_settles {levels limit : Nat} {kind : Kind} {nameIndex : UInt16}
    {length : UInt32} {item : Attribute} {bytes : List UInt8} {deep : Set Nat}
    (hname : pool.utf8 nameIndex.toNat = .ok kind.nameBytes)
    (hbytes : bytes.length = length.toNat)
    (hbody : Settles (.nesting limit) (decodeBody (decodeWithin pool levels) kind) item bytes
      deep) :
    Settles (.nesting limit) (decodeWithin pool (levels + 1)) item
      (header nameIndex length ++ bytes) (moved 6 deep) := by
  intro state hbegins
  have hlength : Settles (.nesting limit) u4 length (BigEndian.ofUInt32 length) ∅ :=
    .of_reads (fun depth ↦ .u4) rfl
  have hresolve : Settles (.nesting limit)
      (resolve state.cursor.absolute (pool.utf8 nameIndex.toNat)) kind.nameBytes [] ∅ := by
    rw [hname]
    exact .pure _
  have hframed : Settles (.nesting limit) (decodeFramed (decodeWithin pool levels)
      state.cursor.absolute kind.nameBytes length) item bytes deep :=
    decodeFramed_settles hbytes hbody
  have hall : Settles (.nesting limit)
      (u2 >>= fun nameIndex ↦ u4 >>= fun length ↦
        resolve state.cursor.absolute (pool.utf8 nameIndex.toNat) >>= fun name ↦
        decodeFramed (decodeWithin pool levels) state.cursor.absolute name length)
      item (BigEndian.ofUInt16 nameIndex ++ (BigEndian.ofUInt32 length ++ ([] ++ bytes))) _ :=
    .u2_bind (hlength.bind (hresolve.bind hframed))
  simp only [Set.empty_union, moved_moved, BigEndian.length_ofUInt32, List.length_nil,
    List.nil_append] at hall
  rw [header, List.append_assoc] at hbegins ⊢
  exact hall state hbegins

/-- What is not `Code` is read with as many levels as there are, if there are any. -/
theorem fitsWithin_of_kind_ne {item : Attribute} {levels levels' : Nat}
    (hkind : item.kind ≠ .code) (hitem : item.FitsWithin levels) :
    item.FitsWithin (levels' + 1) := by
  cases levels with
  | zero => exact absurd hitem (by simp [FitsWithin])
  | succ levels =>
    cases item with
    | code body => exact absurd rfl hkind
    | _ => exact hitem

/-- Reading an attribute whose bytes are all right, however deep others lie in it. The induction is
on the levels, each of which takes one method body off from around the attributes. -/
theorem decodeWithin_settles (levels : Nat) {item : Attribute} {word : List UInt8}
    {fits : Nat} (hitem : item.FitsWithin fits) (hword : word ∈ item.layout pool) :
    Settles (.nesting maxNesting) (decodeWithin pool levels) item word
      (item.positions levels) := by
  induction levels generalizing item word fits with
  | zero =>
    intro state _
    rw [positions_zero]
    exact .refused isLeast_singleton (Nat.zero_le _)
  | succ levels ih =>
    by_cases hkind : item.kind = .code
    · obtain ⟨body, rfl⟩ : ∃ body, item = code body := by
        cases item with
        | code body => exact ⟨body, rfl⟩
        | _ => cases hkind
      cases fits with
      | zero => exact absurd hitem (by simp [FitsWithin])
      | succ fits =>
        -- The attributes of the body have one level less, and one less around what lies in them.
        obtain ⟨nameIndex, length, bytes, hbytes, hname, hlength, rfl⟩ := hword
        obtain ⟨deep, hcode, hpositions⟩ := decodeCode_settles hitem hbytes
          fun item hmember word hword ↦ ih (hitem.2.2.2.2 item hmember) hword
        rw [hpositions]
        exact decodeWithin_succ_settles hname hlength (hcode.map code)
    · rw [positions_of_kind_ne levels hkind]
      exact .of_reads (fun depth ↦ decodeWithin_reads pool (levels + 1))
        ⟨fitsWithin_of_kind_ne hkind hitem, hword⟩

/-! ### The limit -/

/-- An attribute whose bytes are all right, up to how deep attributes lie in it, is read exactly if
for no attribute in it the depth of the cursor and the number of method bodies around it add up to
more than eight. Otherwise the reading stops at the header of the first attribute for which they add
up to nine, whatever stands before it. It is enough that each attribute `Code` for which they add up
to eight has no attributes. -/
theorem decode_within_nesting {item : Attribute} {word : List UInt8} {fits : Nat} {state : State}
    (hitem : item.FitsWithin fits) (hword : word ∈ item.layout pool)
    (hbegins : word <+: state.cursor.rest) (hdepth : state.cursor.depth ≤ 8) :
    ((∃ log, decode pool state = .ok item ⟨state.cursor.advance word.length, log⟩) ↔
      ∀ inner position enclosing, Occurs inner item position enclosing →
        state.cursor.depth + enclosing ≤ 8) ∧
    (∀ inner position enclosing, Occurs inner item position enclosing →
      8 < state.cursor.depth + enclosing →
        ∃ first after, IsLeast (item.positions (9 - state.cursor.depth)) first ∧
          (∃ deep, Occurs deep item first (9 - state.cursor.depth) ∧
            ∃ bytes ∈ deep.layout pool, bytes <+: word.drop first) ∧
          decode pool state = .error ⟨.nesting 8, state.cursor.absolute + first⟩ after) ∧
    ((∀ body position, Occurs (code body) item position (8 - state.cursor.depth) →
      body.attributes = []) →
        ∃ log, decode pool state = .ok item ⟨state.cursor.advance word.length, log⟩) := by
  have hsettled : Settled (.nesting 8) item word (item.positions (9 - state.cursor.depth)) state
      (decode pool state) :=
    decodeWithin_settles (9 - state.cursor.depth) hitem hword state hbegins
  generalize decode pool state = result at hsettled
  cases hsettled with
  | @read log hnone =>
    have hwithin (inner position enclosing) (hinner : Occurs inner item position enclosing) :
        state.cursor.depth + enclosing ≤ 8 := by
      by_contra hdeep
      have hsome := hinner.nonempty_of_le (by omega : 9 - state.cursor.depth ≤ enclosing)
      exact hsome.ne_empty hnone
    refine ⟨iff_of_true ⟨log, rfl⟩ hwithin, fun inner position enclosing hinner hdeep ↦ ?_,
      fun _ ↦ ⟨log, rfl⟩⟩
    have hnot := hwithin inner position enclosing hinner
    omega
  | @refused first after hleast hposition =>
    obtain ⟨deep, hdeep⟩ := hleast.1
    refine ⟨iff_of_false nofun fun hwithin ↦ ?_, fun _ _ _ _ _ ↦
      ⟨first, after, hleast, ⟨deep, hdeep, hdeep.exists_prefix hword⟩, rfl⟩, fun hleaves ↦ ?_⟩
    · have hnot := hwithin deep first _ hdeep
      omega
    · have hcount : 9 - state.cursor.depth = 8 - state.cursor.depth + 1 := by omega
      rw [hcount] at hdeep
      obtain ⟨body, position, hbody, hmember⟩ := hdeep.exists_body
      rw [hleaves body position hbody] at hmember
      cases hmember

/-- An attribute `Code` that returns at once and has no attributes, within so many others. Each of
these has an attribute `Synthetic` before the next one. -/
def codeWithin : (enclosing : Nat) → List UInt8
  | 0 => header 1 13 ++ [0, 0, 0, 0, 0, 0, 0, 1, 0xb1, 0, 0, 0, 0]
  | enclosing + 1 =>
    let attributes := header 2 0 ++ codeWithin enclosing
    header 1 (.ofNat (13 + attributes.length)) ++
      ([0, 0, 0, 0, 0, 0, 0, 1, 0xb1, 0, 0, 0, 2] ++ attributes)

/-- Within eight others that attribute is read. Within nine, the attribute `Synthetic` beside it is
the first one that lies too deep, behind eight others like it. -/
theorem decode_codeWithin :
    let pool : ConstantPool :=
      ⟨#[none, some (.utf8 Kind.code.nameBytes), some (.utf8 Kind.synthetic.nameBytes)]⟩
    (∃ item after, decode pool (.start (.ofBytes (codeWithin 8))) = .ok item after) ∧
      ∃ (item : Attribute) (after : State), IsLeast (item.positions 9) 219 ∧
        decode pool (.start (.ofBytes (codeWithin 9))) = .error ⟨.nesting 8, 219⟩ after := by
  intro pool
  refine ⟨exists_ok_of_answer (by decide +kernel), ?_⟩
  obtain ⟨after, hrefused⟩ : ∃ after, decode pool (.start (.ofBytes (codeWithin 9))) =
      .error ⟨.nesting 8, 219⟩ after := exists_error_of_answer (by decide +kernel)
  -- With levels enough it is read, so that apart from its depth nothing is wrong with it.
  obtain ⟨item, _, hread⟩ : ∃ item after, decodeWithin pool 10 (.start (.ofBytes (codeWithin 9))) =
      .ok item after := exists_ok_of_answer (by decide +kernel)
  obtain ⟨word, ⟨hitem, hword⟩, hbegins, -⟩ :=
    (decodeWithin_reads pool 10 (.start (.ofBytes (codeWithin 9))) item _ rfl).mp ⟨_, hread⟩
  obtain ⟨haccepted, hrefusal, -⟩ :=
    decode_within_nesting hitem hword hbegins (Nat.zero_le 8)
  have hdeep : ¬∀ inner position enclosing, Occurs inner item position enclosing →
      0 + enclosing ≤ 8 := by
    intro hwithin
    obtain ⟨log, haccepted⟩ := haccepted.mpr hwithin
    rw [hrefused] at haccepted
    cases haccepted
  push Not at hdeep
  obtain ⟨inner, position, enclosing, hinner, hlimit⟩ := hdeep
  obtain ⟨first, after', hleast, -, hfirst⟩ := hrefusal inner position enclosing hinner hlimit
  have hstart : (State.start (.ofBytes (codeWithin 9))).cursor.absolute = 0 := rfl
  rw [hrefused, hstart, Nat.zero_add] at hfirst
  injection hfirst with herror
  injection herror with hcause hplace
  exact ⟨item, after, hplace ▸ hleast, hrefused⟩

end ClassFormat.Attribute
