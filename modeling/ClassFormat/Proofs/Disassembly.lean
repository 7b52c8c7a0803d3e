import ClassFormat.Instruction
import ClassFormat.Proofs.Kinds
import Mathlib.Data.List.Nodup
import Std.Data.String.ToInt

/-!
# Reading a disassembly back

The text of an instruction falls into words with blanks and punctuation between them: the address,
the name of the instruction and what the operands are made of. The name gives the form of the
operands and the form says what each further word is, so that `Instruction.ofText?` finds the
instruction again. It answers with an instruction exactly for the text of that instruction, and two
instructions never have the same text.
-/

set_option autoImplicit false
set_option relaxedAutoImplicit false

namespace ClassFormat

namespace Text

/-! ### Words -/

/-- The characters that stand between words. -/
def punctuation : List Char :=
  [' ', ':', ',', '=', '[', ']', '\x7b', '\x7d']

/-- Whether a character stands between words. -/
def isPunctuation (c : Char) : Bool :=
  punctuation.contains c

/-- The words of a text. -/
def words (text : String) : List String :=
  ((text.toList.splitOnP isPunctuation).filter fun word ↦ !word.isEmpty).map String.ofList

/-- A text of one word. -/
def IsWord (text : String) : Prop :=
  text ≠ "" ∧ ∀ c ∈ text.toList, isPunctuation c = false

instance (text : String) : Decidable (IsWord text) :=
  decidable_of_iff (text ≠ "" ∧ text.toList.all fun c ↦ !isPunctuation c) (by simp [IsWord])

theorem words_empty : words "" = [] := by
  simp [words, List.splitOnP_nil]

theorem IsWord.words_eq {text : String} (h : IsWord text) : words text = [text] := by
  obtain ⟨hempty, hletters⟩ := h
  unfold words
  rw [List.splitOnP_eq_singleton hletters]
  simp [hempty]

/-- One character of punctuation separates the words before it from those behind it. -/
theorem words_append_punctuation {c : Char} (hc : isPunctuation c) (before after : String) :
    words (before ++ String.ofList (c :: after.toList)) = words before ++ words after := by
  unfold words
  rw [String.toList_append, String.toList_ofList, List.splitOnP_append_cons _ _ hc,
    List.filter_append, List.map_append]

theorem words_punctuation_append (text : String) :
    ∀ marks : List Char, (∀ c ∈ marks, isPunctuation c) →
      words (String.ofList (marks ++ text.toList)) = words text
  | [], _ => by rw [List.nil_append, String.ofList_toList]
  | c :: marks, hmarks => by
    have hhead := words_append_punctuation (hmarks c List.mem_cons_self) ""
      (String.ofList (marks ++ text.toList))
    rw [String.toList_ofList, words_empty, List.nil_append, String.empty_append] at hhead
    rw [List.cons_append, hhead]
    exact words_punctuation_append text marks fun c hc ↦ hmarks c (List.mem_cons_of_mem _ hc)

/-- What separates two texts: punctuation of at least one character. -/
def IsSeparator (mark : String) : Prop :=
  mark ≠ "" ∧ ∀ c ∈ mark.toList, isPunctuation c

instance (mark : String) : Decidable (IsSeparator mark) :=
  decidable_of_iff (mark ≠ "" ∧ mark.toList.all isPunctuation) (by simp [IsSeparator])

theorem IsSeparator.words_append {mark : String} (h : IsSeparator mark) (before after : String) :
    words (before ++ mark ++ after) = words before ++ words after := by
  obtain ⟨hempty, hmarks⟩ := h
  obtain ⟨c, marks, hmark⟩ : ∃ c marks, mark.toList = c :: marks :=
    List.exists_cons_of_ne_nil (by simpa using hempty)
  have htext : before ++ mark ++ after =
      before ++ String.ofList (c :: (String.ofList (marks ++ after.toList)).toList) := by
    rw [← String.toList_inj]
    simp [hmark]
  rw [hmark] at hmarks
  rw [htext, words_append_punctuation (hmarks c List.mem_cons_self),
    words_punctuation_append after marks fun c hc ↦ hmarks c (List.mem_cons_of_mem _ hc)]

theorem IsSeparator.words_open {mark : String} (h : IsSeparator mark) (text : String) :
    words (mark ++ text) = words text := by
  simpa [words_empty] using h.words_append "" text

theorem IsSeparator.words_close {mark : String} (h : IsSeparator mark) (text : String) :
    words (text ++ mark) = words text := by
  simpa [words_empty] using h.words_append text ""

theorem IsSeparator.words_intercalate {mark : String} (h : IsSeparator mark) :
    ∀ texts : List String, words (mark.intercalate texts) = texts.flatMap words
  | [] => words_empty
  | [text] => by simp
  | text :: next :: texts => by
    rw [String.intercalate_cons_cons, h.words_append, h.words_intercalate (next :: texts)]
    rfl

/-! ### Numerals -/

theorem isPunctuation_eq_false {c : Char} (h : c.isAlphanum ∨ c = '-' ∨ c = '_') :
    isPunctuation c = false := by
  have hmarks : punctuation.all fun c ↦ !(c.isAlphanum || c == '-' || c == '_') := by decide
  by_contra hmem
  have hmark := List.all_eq_true.mp hmarks c (by simpa [isPunctuation] using hmem)
  simp only [Bool.not_eq_true', Bool.or_eq_false_iff, beq_eq_false_iff_ne] at hmark
  simp [hmark] at h

theorem isWord_repr_nat (value : Nat) : IsWord value.repr := by
  refine ⟨Nat.repr_ne_empty, fun c hc ↦ isPunctuation_eq_false (.inl ?_)⟩
  rw [Nat.toList_repr] at hc
  have hdigit := Nat.isDigit_of_mem_toDigits (by decide) (by decide) hc
  simp [Char.isAlphanum, hdigit]

theorem isWord_repr_int (value : Int) : IsWord value.repr := by
  rw [Int.repr_eq_if]
  split
  · exact isWord_repr_nat _
  · obtain ⟨-, hdigits⟩ := isWord_repr_nat (-value).toNat
    refine ⟨by simp, fun c hc ↦ ?_⟩
    rw [String.toList_append, List.mem_append] at hc
    rcases hc with hsign | hdigit
    · exact isPunctuation_eq_false (.inr (.inl (by simpa using hsign)))
    · exact hdigits c hdigit

@[simp] theorem words_repr_nat (value : Nat) : words value.repr = [value.repr] :=
  (isWord_repr_nat value).words_eq

@[simp] theorem words_repr_int (value : Int) : words value.repr = [value.repr] :=
  (isWord_repr_int value).words_eq

/-- The number that a digit in base sixteen stands for. -/
def hexValue (c : Char) : Nat :=
  if c.isDigit then c.toNat - '0'.toNat else c.toNat - 'a'.toNat + 10

/-- The number that digits in base sixteen stand for. -/
def ofHexDigits (digits : List Char) : Nat :=
  digits.foldl (fun value c ↦ 16 * value + hexValue c) 0

theorem hexValue_digitChar : ∀ digit < 16, hexValue digit.digitChar = digit := by
  decide

/-- What holds of a single digit and is kept by a digit behind others holds of every numeral in base
sixteen. -/
theorem toDigits_induction {motive : Nat → List Char → Prop}
    (hdigit : ∀ digit < 16, motive digit [digit.digitChar])
    (hbehind : ∀ high digits, motive high digits → ∀ digit < 16,
      motive (16 * high + digit) (digits ++ [digit.digitChar]))
    (value : Nat) : motive value (Nat.toDigits 16 value) := by
  induction value using Nat.strongRecOn with
  | ind value ih =>
    rcases Nat.lt_or_ge value 16 with hlt | hge
    · rw [Nat.toDigits_of_lt_base hlt]
      exact hdigit value hlt
    · have hall := hbehind _ _ (ih (value / 16) (by omega)) (value % 16) (by omega)
      rwa [Nat.div_add_mod, ← Nat.toDigits_of_base_le (by decide) hge] at hall

theorem ofHexDigits_toDigits (value : Nat) : ofHexDigits (Nat.toDigits 16 value) = value := by
  refine toDigits_induction (motive := fun value digits ↦ ofHexDigits digits = value)
    (fun digit hdigit ↦ ?_) (fun high digits hhigh digit hdigit ↦ ?_) value
  · simpa [ofHexDigits] using hexValue_digitChar digit hdigit
  · rw [ofHexDigits, List.foldl_append, ← ofHexDigits, hhigh, List.foldl_cons, List.foldl_nil,
      hexValue_digitChar digit hdigit]

theorem isAlphanum_of_mem_toDigits (value : Nat) :
    ∀ c ∈ Nat.toDigits 16 value, c.isAlphanum := by
  have hdigits : ∀ digit < 16, (Nat.digitChar digit).isAlphanum := by decide
  refine toDigits_induction (motive := fun _ digits ↦ ∀ c ∈ digits, c.isAlphanum)
    (fun digit hdigit ↦ ?_) (fun high digits hhigh digit hdigit ↦ ?_) value
  · exact List.forall_mem_singleton.mpr (hdigits digit hdigit)
  · exact List.forall_mem_append.mpr
      ⟨hhigh, List.forall_mem_singleton.mpr (hdigits digit hdigit)⟩

/-- Numerals in base sixteen differ if the numbers do, whatever the width. -/
theorem hexadecimal_injective (width : Nat) : Function.Injective (hexadecimal width) := by
  have hpadded (value : Nat) : ofHexDigits (hexadecimal width value).toList = value := by
    have hzeros (count : Nat) :
        (List.replicate count '0').foldl (fun value c ↦ 16 * value + hexValue c) 0 = 0 := by
      induction count with
      | zero => rfl
      | succ count ih => exact ih
    have hdigits := ofHexDigits_toDigits value
    simp only [hexadecimal, hexDigits, String.toList_ofList, ofHexDigits, List.foldl_append,
      hzeros] at hdigits ⊢
    exact hdigits
  intro value value' heq
  rw [← hpadded value, heq, hpadded value']

theorem isAlphanum_of_mem_hexadecimal (width value : Nat) :
    ∀ c ∈ (hexadecimal width value).toList, c.isAlphanum := by
  intro c hc
  rw [hexadecimal, String.toList_ofList, hexDigits, List.mem_append] at hc
  rcases hc with hzero | hdigit
  · rw [List.eq_of_mem_replicate hzero]
    decide
  · exact isAlphanum_of_mem_toDigits value c hdigit

end Text

/-! ### Names of instructions -/

/-- A number for a text, made of its bytes. Numbers are compared faster than texts. -/
def Text.key (text : String) : Nat :=
  text.toByteArray.data.toList.foldl (fun key byte ↦ 256 * key + byte.toNat) 0

/-- Whether no number stands twice in a list. -/
def allDistinct : List Nat → Bool
  | [] => true
  | value :: values => values.all (fun other ↦ !Nat.beq value other) && allDistinct values

theorem nodup_of_allDistinct {values : List Nat} (h : allDistinct values) : values.Nodup := by
  induction values with
  | nil => exact .nil
  | cons value values ih =>
    obtain ⟨hhead, htail⟩ := Bool.and_eq_true_iff.mp h
    refine List.nodup_cons.mpr ⟨fun hmem ↦ ?_, ih htail⟩
    simpa using List.all_eq_true.mp hhead value hmem

/-- Whether a text is made as the mnemonics are: of letters, digits and underscores, and with a
lowercase letter in front. -/
def Text.isName (text : String) : Bool :=
  text.toList.head?.any Char.isLower && text.toList.all fun c ↦ c.isAlphanum || c == '_'

namespace OpcodeRow

theorem nodup_keys :
    (places.filterMap (Option.map fun row ↦ Text.key row.mnemonic)).Nodup :=
  nodup_of_allDistinct (by decide +kernel)

theorem isName_mnemonics :
    (places.filterMap (Option.map OpcodeRow.mnemonic)).all Text.isName := by
  decide +kernel

theorem getElem?_places {byte : UInt8} {row : OpcodeRow} (hrow : ofByte? byte = some row) :
    places[byte.toNat]? = some (some row) := by
  simpa [ofByte?, table, Option.join_eq_some_iff] using hrow

theorem isName_mnemonic {byte : UInt8} {row : OpcodeRow} (hrow : ofByte? byte = some row) :
    Text.isName row.mnemonic := by
  refine List.all_eq_true.mp isName_mnemonics row.mnemonic (List.mem_filterMap.mpr ?_)
  exact ⟨some row, List.mem_of_getElem? (getElem?_places hrow), rfl⟩

/-- Two places of the table with the same mnemonic are the same place. -/
theorem byte_eq_of_mnemonic_eq {byte byte' : UInt8} {row row' : OpcodeRow}
    (hrow : ofByte? byte = some row) (hrow' : ofByte? byte' = some row')
    (hname : row.mnemonic = row'.mnemonic) : byte = byte' := by
  have hpairs := List.pairwise_iff_getElem.mp (List.pairwise_filterMap.mp nodup_keys)
  obtain ⟨hlt, hget⟩ := List.getElem?_eq_some_iff.mp (getElem?_places hrow)
  obtain ⟨hlt', hget'⟩ := List.getElem?_eq_some_iff.mp (getElem?_places hrow')
  -- An earlier place and a later one have different keys, in whichever order the two stand.
  rcases Nat.lt_trichotomy byte.toNat byte'.toNat with hbefore | hsame | hbehind
  · exact absurd (congrArg Text.key hname)
      (hpairs _ _ hlt hlt' hbefore _ (by rw [hget]; rfl) _ (by rw [hget']; rfl))
  · exact UInt8.toNat_inj.mp hsame
  · exact absurd (congrArg Text.key hname.symm)
      (hpairs _ _ hlt' hlt hbehind _ (by rw [hget']; rfl) _ (by rw [hget]; rfl))

end OpcodeRow

theorem Text.IsWord.of_isName {text : String} (h : isName text) : IsWord text := by
  obtain ⟨hfirst, hletters⟩ := Bool.and_eq_true_iff.mp h
  constructor
  · rintro rfl
    simp at hfirst
  · intro c hc
    have hletter := List.all_eq_true.mp hletters c hc
    rcases Bool.or_eq_true_iff.mp hletter with halphanum | hunderscore
    · exact isPunctuation_eq_false (.inl halphanum)
    · exact isPunctuation_eq_false (.inr (.inr (by simpa using hunderscore)))

/-- The name under which a byte is shown as an instruction: its mnemonic or, where no instruction is
assigned to it, the byte in base sixteen. -/
def nameOfByte (byte : UInt8) : String :=
  (mnemonic? byte).getD ("0x" ++ Text.hexadecimal 2 byte.toNat)

theorem mnemonic?_eq_map (byte : UInt8) :
    mnemonic? byte = (OpcodeRow.ofByte? byte).map OpcodeRow.mnemonic := by
  unfold mnemonic? Opcode.ofByte?
  split
  next hassigned =>
    rw [Option.map_some, ← Option.some_get hassigned, Option.map_some]
    rfl
  next hgap => rw [Option.not_isSome_iff_eq_none.mp hgap, Option.map_none, Option.map_none]

theorem nameOfByte_cases (byte : UInt8) :
    (∃ row, OpcodeRow.ofByte? byte = some row ∧ nameOfByte byte = row.mnemonic) ∨
      nameOfByte byte = "0x" ++ Text.hexadecimal 2 byte.toNat := by
  unfold nameOfByte
  rw [mnemonic?_eq_map]
  cases OpcodeRow.ofByte? byte with
  | none => exact .inr rfl
  | some row => exact .inl ⟨row, rfl, rfl⟩

theorem isWord_nameOfByte (byte : UInt8) : Text.IsWord (nameOfByte byte) := by
  rcases nameOfByte_cases byte with ⟨row, hrow, hname⟩ | hname
  · rw [hname]
    exact .of_isName (OpcodeRow.isName_mnemonic hrow)
  · rw [hname]
    refine ⟨by simp, fun c hc ↦ Text.isPunctuation_eq_false (.inl ?_)⟩
    rw [String.toList_append, List.mem_append] at hc
    rcases hc with hmark | hdigit
    · exact List.all_eq_true.mp (by decide : "0x".toList.all Char.isAlphanum) c hmark
    · exact Text.isAlphanum_of_mem_hexadecimal 2 byte.toNat c hdigit

/-- A mnemonic does not start with a digit, so it is never taken for a numeral. -/
theorem ne_hexadecimal_of_isName {name : String} (h : Text.isName name) (numeral : String) :
    name ≠ "0x" ++ numeral := by
  rintro rfl
  simp [Text.isName] at h

/-- No two bytes are shown under the same name. -/
theorem nameOfByte_injective : Function.Injective nameOfByte := by
  intro byte byte' heq
  rcases nameOfByte_cases byte with ⟨row, hrow, hname⟩ | hname <;>
    rcases nameOfByte_cases byte' with ⟨row', hrow', hname'⟩ | hname' <;>
    rw [hname, hname'] at heq
  · exact OpcodeRow.byte_eq_of_mnemonic_eq hrow hrow' heq
  · exact absurd heq (ne_hexadecimal_of_isName (OpcodeRow.isName_mnemonic hrow) _)
  · exact absurd heq.symm (ne_hexadecimal_of_isName (OpcodeRow.isName_mnemonic hrow') _)
  · exact UInt8.toNat_inj.mp (Text.hexadecimal_injective 2 (String.append_right_inj _ |>.mp heq))

/-- The byte that is shown under a name. -/
def byteNamed? (name : String) : Option UInt8 :=
  ((List.range 256).map UInt8.ofNat).find? fun byte ↦ nameOfByte byte = name

theorem byteNamed?_nameOfByte (byte : UInt8) : byteNamed? (nameOfByte byte) = some byte := by
  have hmem : byte ∈ (List.range 256).map UInt8.ofNat :=
    List.mem_map.mpr ⟨byte.toNat, List.mem_range.mpr byte.toNat_lt, UInt8.ofNat_toNat⟩
  obtain ⟨found, hfound⟩ := Option.isSome_iff_exists.mp
    (List.find?_isSome (p := fun found ↦ nameOfByte found = nameOfByte byte).mpr
      ⟨byte, hmem, decide_eq_true rfl⟩)
  have hsame : nameOfByte found = nameOfByte byte := by simpa using List.find?_some hfound
  unfold byteNamed?
  rw [hfound, nameOfByte_injective hsame]

theorem Opcode.nameOfByte_byte (opcode : Opcode) : nameOfByte opcode.byte = opcode.mnemonic := by
  unfold nameOfByte mnemonic?
  rw [(ofByte?_eq_some_iff opcode.byte opcode).mpr rfl]
  rfl

/-! ### Operands -/

namespace Operands

/-- The keys of a switch, each with the address behind it, from the words that show them. -/
def pairsOfWords? : List String → Option (List (Int32 × Int))
  | [] => some []
  | key :: target :: rest => do
    return (Int32.ofInt (← key.toInt?), ← target.toInt?) :: (← pairsOfWords? rest)
  | [_] => none

/-- The operands of a form from the words that show them. -/
def ofWords? : (form : Form) → List String → Option (Operands form)
  | .plain, [] => some .plain
  | .signedByte, [value] => return .signedByte (Int8.ofInt (← value.toInt?))
  | .signedShort, [value] => return .signedShort (Int16.ofInt (← value.toInt?))
  | .byteIndex, [place] => return .byteIndex (UInt8.ofNat (← place.toNat?))
  | .index, [place] => return .index (UInt16.ofNat (← place.toNat?))
  | .increment, [place, amount] =>
    return .increment (UInt8.ofNat (← place.toNat?)) (Int8.ofInt (← amount.toInt?))
  | .branch, [target] => return .branch (← target.toInt?)
  | .wideBranch, [target] => return .wideBranch (← target.toInt?)
  | .interfaceCall, [place, count] =>
    return .interfaceCall (UInt16.ofNat (← place.toNat?)) (UInt8.ofNat (← count.toNat?))
  | .dynamicCall, [place] => return .dynamicCall (UInt16.ofNat (← place.toNat?))
  | .arrayType, [element] => return .arrayType (← ArrayType.all.find? (·.name = element))
  | .multiArray, [place, dimensions] =>
    return .multiArray (UInt16.ofNat (← place.toNat?)) (UInt8.ofNat (← dimensions.toNat?))
  | .tableSwitch, _ :: fallback :: _ :: low :: _ :: high :: targets =>
    return .tableSwitch (← fallback.toInt?) (Int32.ofInt (← low.toInt?))
      (Int32.ofInt (← high.toInt?)) (← targets.mapM String.toInt?)
  | .lookupSwitch, _ :: fallback :: pairs =>
    return .lookupSwitch (← fallback.toInt?) (← pairsOfWords? pairs)
  | .wide, [name, place] =>
    return .wide (.onVariable (← byteNamed? name) (UInt16.ofNat (← place.toNat?)))
  | .wide, [_, place, amount] =>
    return .wide (.increment (UInt16.ofNat (← place.toNat?)) (Int16.ofInt (← amount.toInt?)))
  | _, _ => none

theorem pairsOfWords?_repr (pairs : List (Int32 × Int)) :
    pairsOfWords? (pairs.flatMap fun (key, target) ↦ [key.toInt.repr, target.repr]) =
      some pairs := by
  induction pairs with
  | nil => rfl
  | cons pair pairs ih =>
    simp [pairsOfWords?, ih]

theorem mapM_toInt?_repr (targets : List Int) :
    targets.mapM (String.toInt? ∘ Int.repr) = some targets := by
  induction targets with
  | nil => rfl
  | cons target targets ih => simp [ih]

theorem words_labelled (label name : String) (hlabel : label = name ++ "=")
    (hname : Text.IsWord name) (value : Int) :
    Text.words (label ++ value.repr) = [name, value.repr] := by
  have hmark : Text.IsSeparator "=" := by decide
  rw [hlabel, hmark.words_append, hname.words_eq, Text.words_repr_int, List.singleton_append]

theorem words_bracketed {left right : String} (hleft : Text.IsSeparator left)
    (hright : Text.IsSeparator right) (entries : List String) :
    Text.words (left ++ commaList entries ++ right) = entries.flatMap Text.words := by
  have hcomma : Text.IsSeparator ", " := by decide
  unfold commaList
  rw [hright.words_close, hleft.words_open, hcomma.words_intercalate]

theorem ofWords?_text_wide (operation : WideOperation) :
    ofWords? .wide (Text.words operation.text) = some (.wide operation) := by
  have hblank : Text.IsSeparator " " := by decide
  cases operation with
  | onVariable opcode place =>
    have htext : (WideOperation.onVariable opcode place).text =
        nameOfByte opcode ++ " " ++ place.toNat.repr := rfl
    rw [htext, hblank.words_append, (isWord_nameOfByte opcode).words_eq, Text.words_repr_nat]
    simp [ofWords?, byteNamed?_nameOfByte]
  | increment place amount =>
    have htext : (WideOperation.increment place amount).text =
        "iinc" ++ " " ++ place.toNat.repr ++ " " ++ amount.toInt.repr := rfl
    have hname : Text.IsWord "iinc" := by decide
    rw [htext, hblank.words_append, hblank.words_append, hname.words_eq, Text.words_repr_nat,
      Text.words_repr_int]
    simp [ofWords?]

/-- The operands of every form are found again from the words of their texts. -/
theorem ofWords?_texts {form : Form} (operands : Operands form) :
    ofWords? form (operands.texts.flatMap Text.words) = some operands := by
  have hdefault := words_labelled "default=" "default" (by decide) (by decide)
  cases operands with
  | tableSwitch fallback low high targets =>
    have hlow := words_labelled "low=" "low" (by decide) (by decide) low.toInt
    have hhigh := words_labelled "high=" "high" (by decide) (by decide)
      high.toInt
    have htargets : Text.words ("[" ++ commaList (targets.map Int.repr) ++ "]") =
        targets.map Int.repr := by
      rw [words_bracketed (by decide) (by decide), List.flatMap_map, List.map_eq_flatMap]
      simp
    simp [texts, toString, hdefault, hlow, hhigh, htargets, ofWords?, mapM_toInt?_repr]
  | lookupSwitch fallback pairs =>
    have hpairs : Text.words ("\x7b" ++ commaList (pairs.map fun pair ↦
        pair.1.toInt.repr ++ ": " ++ pair.2.repr) ++ "\x7d") =
          pairs.flatMap fun pair ↦ [pair.1.toInt.repr, pair.2.repr] := by
      have hcolon : Text.IsSeparator ": " := by decide
      rw [words_bracketed (by decide) (by decide), List.flatMap_map]
      simp [hcolon.words_append]
    simp [texts, toString, hdefault, hpairs, ofWords?, pairsOfWords?_repr]
  | wide operation =>
    simpa [texts] using ofWords?_text_wide operation
  | arrayType element => cases element <;> decide
  | _ => simp [texts, ofWords?, toString]

end Operands

/-! ### Instructions -/

namespace Instruction

/-- The instruction from the words of its text. -/
def ofWords? : List String → Option Instruction
  | address :: name :: operands => do
    let opcode ← Opcode.ofByte? (← byteNamed? name)
    return ⟨UInt32.ofNat (← address.toNat?), opcode, ← Operands.ofWords? opcode.form operands⟩
  | _ => none

/-- The instruction that has a text. -/
def ofText? (text : String) : Option Instruction :=
  (ofWords? (Text.words text)).filter fun instruction ↦ instruction.text = text

/-- The words of an instruction: its address, its name and the words of its operands. -/
theorem words_text (instruction : Instruction) :
    Text.words instruction.text =
      instruction.address.toNat.repr :: instruction.operation.opcode.mnemonic ::
        instruction.operation.operands.texts.flatMap Text.words := by
  have hcolon : Text.IsSeparator ": " := by decide
  have hblank : Text.IsSeparator " " := by decide
  have hname := isWord_nameOfByte instruction.operation.opcode.byte
  rw [Opcode.nameOfByte_byte] at hname
  have htext : instruction.text =
      instruction.address.toNat.repr ++ ": " ++ instruction.operation.text := rfl
  rw [htext, hcolon.words_append, Text.words_repr_nat, Operation.text, hblank.words_intercalate,
    List.flatMap_cons, hname.words_eq]
  rfl

theorem ofWords?_words_text (instruction : Instruction) :
    ofWords? (Text.words instruction.text) = some instruction := by
  obtain ⟨address, opcode, operands⟩ := instruction
  have hopcode := (Opcode.ofByte?_eq_some_iff opcode.byte opcode).mpr rfl
  have hbyte := byteNamed?_nameOfByte opcode.byte
  rw [Opcode.nameOfByte_byte] at hbyte
  rw [words_text]
  simp [ofWords?, hbyte, hopcode, Operands.ofWords?_texts]

/-- The text of an instruction says all about it: an instruction is read from a text exactly if the
text is its own, and instructions with the same text are equal. -/
theorem text_lossless :
    Function.Injective text ∧
      ∀ shown instruction, ofText? shown = some instruction ↔ instruction.text = shown := by
  have hread (shown : String) (instruction : Instruction) :
      ofText? shown = some instruction ↔ instruction.text = shown := by
    unfold ofText?
    rw [Option.filter_eq_some_iff]
    constructor
    · rintro ⟨-, hshown⟩
      simpa using hshown
    · rintro rfl
      exact ⟨ofWords?_words_text instruction, by simp⟩
  refine ⟨fun instruction instruction' heq ↦ ?_, hread⟩
  have hfirst := (hread instruction.text instruction).mpr rfl
  have hsecond := (hread instruction.text instruction').mpr heq.symm
  exact Option.some.inj (hfirst.symm.trans hsecond)

end Instruction

end ClassFormat
