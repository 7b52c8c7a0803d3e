import ClassFormat.Proofs.ModifiedUtf8.Units

/-!
# Modified UTF-8 is exact

The units of a text are joined to characters from left to right. So at the head of bytes stands
either the written form of a character or something malformed, which no text is written as
(`Malformed`): the form of no unit, or a surrogate without its partner. Reading takes the written
form of one character off (`decode_written_append`) and gives up on what is malformed
(`Malformed.decode_eq_none`).

A text is read exactly from its own written form (`decode_eq_some_iff`), and bytes are the written
form of no text exactly if they are malformed behind the written form of some text
(`forall_ne_encode_iff`).
-/

set_option autoImplicit false
set_option relaxedAutoImplicit false

namespace ClassFormat.Text.ModifiedUtf8

/-! ### The joining of units -/

theorem isHighSurrogate_iff {unit : Nat} :
    isHighSurrogate unit = true ↔ 0xd800 ≤ unit ∧ unit < 0xdc00 := by
  rw [isHighSurrogate, Bool.and_eq_true, decide_eq_true_iff, decide_eq_true_iff]

theorem isLowSurrogate_iff {unit : Nat} :
    isLowSurrogate unit = true ↔ 0xdc00 ≤ unit ∧ unit < 0xe000 := by
  rw [isLowSurrogate, Bool.and_eq_true, decide_eq_true_iff, decide_eq_true_iff]

/-- Units that begin with a surrogate without its partner. -/
inductive Unpaired : List Nat → Prop where
  | high {unit : Nat} {rest : List Nat} (hunit : isHighSurrogate unit)
      (hrest : ∀ low ∈ rest.head?, ¬isLowSurrogate low) : Unpaired (unit :: rest)
  | low {unit : Nat} (hunit : isLowSurrogate unit) (rest : List Nat) : Unpaired (unit :: rest)

theorem charactersOnto?_of_single {unit : Nat} (hhigh : ¬isHighSurrogate unit)
    (hlow : ¬isLowSurrogate unit) (done : List Char) (rest : List Nat) :
    charactersOnto? done (unit :: rest) = charactersOnto? (Char.ofNat unit :: done) rest := by
  rw [charactersOnto?.eq_def]
  exact (if_neg hhigh).trans (if_neg hlow)

theorem charactersOnto?_of_pair {high low : Nat} (hhigh : isHighSurrogate high)
    (hlow : isLowSurrogate low) (done : List Char) (rest : List Nat) :
    charactersOnto? done (high :: low :: rest) =
      charactersOnto? (Char.ofNat (0x10000 + (high - 0xd800) * 0x400 + (low - 0xdc00)) :: done)
        rest := by
  rw [charactersOnto?.eq_def]
  exact (if_pos hhigh).trans (if_pos hlow)

/-- Reading gives up on a surrogate without its partner. -/
theorem Unpaired.charactersOnto?_eq_none {units : List Nat} (hunits : Unpaired units)
    (done : List Char) : charactersOnto? done units = none := by
  cases hunits with
  | @high unit rest hunit hrest =>
    cases rest with
    | nil =>
      rw [charactersOnto?.eq_def]
      exact if_pos hunit
    | cons low rest =>
      rw [charactersOnto?.eq_def]
      exact (if_pos hunit).trans (if_neg (hrest low rfl))
  | @low unit hunit rest =>
    have hhigh : ¬isHighSurrogate unit := by
      rw [isHighSurrogate_iff]
      rw [isLowSurrogate_iff] at hunit
      omega
    rw [charactersOnto?.eq_def]
    exact (if_neg hhigh).trans (if_pos hunit)

/-- What was joined before stays in front of what is joined. -/
theorem charactersOnto?_append (done front : List Char) (units : List Nat) :
    charactersOnto? (done ++ front) units =
      (charactersOnto? done units).map (front.reverse ++ ·) := by
  -- Reading puts characters in front of `done`, so what was joined first is behind it.
  fun_induction charactersOnto? done units with
  | case1 done => rw [charactersOnto?, List.reverse_append, Option.map_some]
  | case2 done high hhigh low rest hlow character ih =>
    rw [charactersOnto?_of_pair hhigh hlow, ← ih, List.cons_append]
  | case3 done unit hunit next rest hnext =>
    have hunpaired : Unpaired (unit :: next :: rest) := .high hunit (by simpa using hnext)
    rw [hunpaired.charactersOnto?_eq_none, Option.map_none]
  | case4 done unit hunit =>
    have hunpaired : Unpaired [unit] := .high hunit (by simp)
    rw [hunpaired.charactersOnto?_eq_none, Option.map_none]
  | case5 done unit rest _ hunit =>
    have hunpaired : Unpaired (unit :: rest) := .low hunit rest
    rw [hunpaired.charactersOnto?_eq_none, Option.map_none]
  | case6 done unit rest hhigh hlow ih =>
    rw [charactersOnto?_of_single hhigh hlow, ← ih, List.cons_append]

theorem characters?_of_single {unit : Nat} (hhigh : ¬isHighSurrogate unit)
    (hlow : ¬isLowSurrogate unit) (rest : List Nat) :
    characters? (unit :: rest) = (characters? rest).map (Char.ofNat unit :: ·) := by
  rw [characters?, charactersOnto?_of_single hhigh hlow]
  exact charactersOnto?_append [] [Char.ofNat unit] rest

theorem characters?_of_pair {high low : Nat} (hhigh : isHighSurrogate high)
    (hlow : isLowSurrogate low) (rest : List Nat) :
    characters? (high :: low :: rest) =
      (characters? rest).map
        (Char.ofNat (0x10000 + (high - 0xd800) * 0x400 + (low - 0xdc00)) :: ·) := by
  rw [characters?, charactersOnto?_of_pair hhigh hlow]
  exact charactersOnto?_append [] [_] rest

/-! ### Characters and their units -/

theorem toNat_ofNat_of_isValidChar {code : Nat} (hcode : code.isValidChar) :
    (Char.ofNat code).toNat = code := by
  rw [Char.ofNat, dif_pos hcode]
  rfl

/-- No character is a surrogate. -/
theorem toNat_lt_or (character : Char) : character.toNat < 0xd800 ∨
    (0xdfff < character.toNat ∧ character.toNat < 0x110000) :=
  character.valid

theorem unitsOf_lt (character : Char) : ∀ unit ∈ unitsOf character, unit < 0x10000 := by
  have hvalid := toNat_lt_or character
  rw [unitsOf]
  split
  · simpa
  · simp only [List.forall_mem_cons, List.not_mem_nil, false_implies, implies_true, and_true]
    omega

/-- A character is read from its units, whatever follows. -/
theorem characters?_unitsOf_append (character : Char) (rest : List Nat) :
    characters? (unitsOf character ++ rest) = (characters? rest).map (character :: ·) := by
  have hvalid := toNat_lt_or character
  rw [unitsOf]
  split
  case isTrue hcode =>
    have hhigh : ¬isHighSurrogate character.toNat := by
      rw [isHighSurrogate_iff]
      omega
    have hlow : ¬isLowSurrogate character.toNat := by
      rw [isLowSurrogate_iff]
      omega
    rw [List.singleton_append, characters?_of_single hhigh hlow, Char.ofNat_toNat]
  case isFalse hcode =>
    have hhigh : isHighSurrogate (0xd800 + (character.toNat - 0x10000) / 0x400) := by
      rw [isHighSurrogate_iff]
      omega
    have hlow : isLowSurrogate (0xdc00 + (character.toNat - 0x10000) % 0x400) := by
      rw [isLowSurrogate_iff]
      omega
    have hjoined : 0x10000 + (0xd800 + (character.toNat - 0x10000) / 0x400 - 0xd800) * 0x400 +
        (0xdc00 + (character.toNat - 0x10000) % 0x400 - 0xdc00) = character.toNat := by omega
    rw [List.cons_append, List.singleton_append, characters?_of_pair hhigh hlow, hjoined,
      Char.ofNat_toNat]

theorem unitsOf_ofNat_of_single {unit : Nat} (hunit : unit < 0x10000)
    (hhigh : ¬isHighSurrogate unit) (hlow : ¬isLowSurrogate unit) :
    unitsOf (Char.ofNat unit) = [unit] := by
  rw [isHighSurrogate_iff] at hhigh
  rw [isLowSurrogate_iff] at hlow
  have hvalid : unit.isValidChar := (by omega : unit < 0xd800 ∨ (0xdfff < unit ∧ unit < 0x110000))
  rw [unitsOf, toNat_ofNat_of_isValidChar hvalid]
  exact if_pos hunit

theorem unitsOf_ofNat_of_pair {high low : Nat} (hhigh : isHighSurrogate high)
    (hlow : isLowSurrogate low) :
    unitsOf (Char.ofNat (0x10000 + (high - 0xd800) * 0x400 + (low - 0xdc00))) = [high, low] := by
  rw [isHighSurrogate_iff] at hhigh
  rw [isLowSurrogate_iff] at hlow
  generalize hcode : 0x10000 + (high - 0xd800) * 0x400 + (low - 0xdc00) = code
  have hvalid : code.isValidChar := (by omega : code < 0xd800 ∨ (0xdfff < code ∧ code < 0x110000))
  have hfirst : 0xd800 + (code - 0x10000) / 0x400 = high := by omega
  have hsecond : 0xdc00 + (code - 0x10000) % 0x400 = low := by omega
  rw [unitsOf, toNat_ofNat_of_isValidChar hvalid]
  simp only [hfirst, hsecond]
  exact if_neg (by omega)

/-! ### Texts -/

/-- The written form of one character. -/
def written (character : Char) : List UInt8 :=
  (unitsOf character).flatMap encodeUnit

theorem encode_eq (text : String) : encode text = text.toList.flatMap written :=
  List.flatMap_assoc

theorem encode_cons (character : Char) (text : String) :
    encode (.ofList (character :: text.toList)) = written character ++ encode text := by
  rw [encode_eq, encode_eq, String.toList_ofList, List.flatMap_cons]

theorem decode_eq (bytes : List UInt8) :
    decode bytes = ((units? bytes).bind characters?).map String.ofList :=
  (Option.map_bind ..).symm

/-- The written form of a character is read as this character, whatever follows. -/
theorem decode_written_append (character : Char) (rest : List UInt8) :
    decode (written character ++ rest) =
      (decode rest).map fun text ↦ .ofList (character :: text.toList) := by
  rw [decode_eq, decode_eq, written, units?_flatMap_append (unitsOf_lt character)]
  cases units? rest with
  | none => rfl
  | some units =>
    rw [Option.map_some, Option.bind_some, Option.bind_some, characters?_unitsOf_append,
      Option.map_map, Option.map_map]
    simp only [Function.comp_def, String.toList_ofList]

/-- Bytes that begin with the written form of no character. -/
inductive Malformed : List UInt8 → Prop where
  | unwritten {bytes : List UInt8} (hbytes : Unwritten bytes) : Malformed bytes
  /-- A surrogate that opens a pair, with none behind it that closes the pair. -/
  | loneHigh {high : Nat} {rest : List UInt8} (hhigh : isHighSurrogate high)
      (hrest : ∀ low behind, isLowSurrogate low → rest ≠ encodeUnit low ++ behind) :
      Malformed (encodeUnit high ++ rest)
  /-- A surrogate that closes a pair, with none before it that opens the pair. -/
  | loneLow {low : Nat} (hlow : isLowSurrogate low) (rest : List UInt8) :
      Malformed (encodeUnit low ++ rest)

/-- Bytes are not read if the units behind their first one do not go with it. -/
theorem decode_encodeUnit_append {unit : Nat} {rest : List UInt8} (hunit : unit < 0x10000)
    (hunpaired : ∀ units, units? rest = some units → Unpaired (unit :: units)) :
    decode (encodeUnit unit ++ rest) = none := by
  rw [decode_eq, (form_encodeUnit hunit).units?_append]
  cases hunits : units? rest with
  | none => rfl
  | some units =>
    rw [Option.map_some, Option.bind_some, characters?,
      (hunpaired units hunits).charactersOnto?_eq_none, Option.map_none]

/-- Malformed bytes are not read. -/
theorem Malformed.decode_eq_none {bytes : List UInt8} (hbytes : Malformed bytes) :
    decode bytes = none := by
  cases hbytes with
  | unwritten hbytes =>
    rw [decode_eq, units?, hbytes.unitsOnto?_eq_none, Option.bind_none, Option.map_none]
  | @loneHigh high rest hhigh hrest =>
    have hbounds := isHighSurrogate_iff.mp hhigh
    refine decode_encodeUnit_append (by omega) fun units hunits ↦ .high hhigh ?_
    intro low hfirst hlow
    obtain ⟨units, rfl⟩ := List.head?_eq_some_iff.mp hfirst
    obtain ⟨behind, hbehind⟩ := exists_append_of_units? hunits
    exact hrest low behind hlow hbehind
  | @loneLow low hlow rest =>
    have hbounds := isLowSurrogate_iff.mp hlow
    exact decode_encodeUnit_append (by omega) fun units _ ↦ .low hlow units

/-- What bytes begin with, if there are any: the written form of a character, or what is none. -/
theorem written_or_malformed (lead : UInt8) (rest : List UInt8) :
    (∃ character behind, lead :: rest = written character ++ behind) ∨
      Malformed (lead :: rest) := by
  obtain ⟨unit, bytes, behind, hform, heq⟩ | hunwritten := form_or_unwritten lead rest
  · obtain ⟨hunit, rfl⟩ := hform.encodeUnit_eq
    rw [heq]
    by_cases hhigh : isHighSurrogate unit
    · by_cases hpair : ∃ low after, isLowSurrogate low ∧ behind = encodeUnit low ++ after
      · obtain ⟨low, after, hlow, rfl⟩ := hpair
        have hwritten : written (Char.ofNat (0x10000 + (unit - 0xd800) * 0x400 + (low - 0xdc00))) =
            encodeUnit unit ++ encodeUnit low := by
          rw [written, unitsOf_ofNat_of_pair hhigh hlow, List.flatMap_cons, List.flatMap_singleton]
        exact .inl ⟨_, after, by rw [hwritten, List.append_assoc]⟩
      · exact .inr (.loneHigh hhigh fun low after hlow hbehind ↦
          hpair ⟨low, after, hlow, hbehind⟩)
    by_cases hlow : isLowSurrogate unit
    · exact .inr (.loneLow hlow behind)
    · refine .inl ⟨Char.ofNat unit, behind, ?_⟩
      rw [written, unitsOf_ofNat_of_single hunit hhigh hlow, List.flatMap_singleton]
  · exact .inr (.unwritten hunwritten)

theorem written_length_pos (character : Char) : 0 < (written character).length := by
  cases hunits : unitsOf character with
  | nil =>
    rw [unitsOf] at hunits
    split at hunits <;> cases hunits
  | cons unit units =>
    have hunit := unitsOf_lt character unit (hunits ▸ List.mem_cons_self)
    have hpositive := (form_encodeUnit hunit).length_pos
    rw [written, hunits, List.flatMap_cons, List.length_append]
    omega

/-- Bytes are taken apart character by character, up to their end or to what is malformed. -/
@[elab_as_elim]
theorem written_induction {motive : List UInt8 → Prop} (bytes : List UInt8) (nil : motive [])
    (written : ∀ character behind, motive behind → motive (written character ++ behind))
    (malformed : ∀ bytes, Malformed bytes → motive bytes) : motive bytes := by
  induction hlength : bytes.length using Nat.strongRecOn generalizing bytes with
  | ind length ih =>
    cases bytes with
    | nil => exact nil
    | cons lead rest =>
      obtain ⟨character, behind, heq⟩ | hmalformed := written_or_malformed lead rest
      · have hpositive := written_length_pos character
        rw [heq, List.length_append] at hlength
        rw [heq]
        exact written character behind (ih behind.length (by omega) behind rfl)
      · exact malformed _ hmalformed

/-- A text is read from its written form, whatever follows. -/
theorem decode_encode_append (text : String) (rest : List UInt8) :
    decode (encode text ++ rest) = (decode rest).map (text ++ ·) := by
  obtain ⟨characters, rfl⟩ : ∃ characters, text = .ofList characters :=
    ⟨text.toList, String.ofList_toList.symm⟩
  rw [encode_eq, String.toList_ofList]
  induction characters with
  | nil => simp
  | cons character characters ih =>
    rw [List.flatMap_cons, List.append_assoc, decode_written_append, ih, Option.map_map]
    congr 1
    funext behind
    rw [Function.comp_apply, String.toList_append, String.toList_ofList, ← List.cons_append,
      String.ofList_append, String.ofList_toList]

theorem decode_encode (text : String) : decode (encode text) = some text := by
  have hnil : decode [] = some "" := rfl
  have hdecode := decode_encode_append text []
  rwa [List.append_nil, hnil, Option.map_some, String.append_empty] at hdecode

/-- A text is read from bytes exactly if they are its written form. -/
theorem decode_eq_some_iff {bytes : List UInt8} {text : String} :
    decode bytes = some text ↔ bytes = encode text := by
  constructor
  · intro hdecode
    induction bytes using written_induction generalizing text with
    | nil =>
      cases hdecode
      rfl
    | written character behind ih =>
      rw [decode_written_append, Option.map_eq_some_iff] at hdecode
      obtain ⟨text, hbehind, rfl⟩ := hdecode
      rw [encode_cons, ih hbehind]
    | malformed bytes hbytes =>
      rw [hbytes.decode_eq_none] at hdecode
      cases hdecode
  · rintro rfl
    exact decode_encode text

/-- Two texts with the same written form are the same. -/
theorem encode_injective : Function.Injective encode := by
  intro text other heq
  have hdecode := decode_encode text
  rw [heq, decode_encode] at hdecode
  exact Option.some_inj.mp hdecode.symm

/-- Bytes are the written form of no text exactly if they are malformed behind the written form of
some text. -/
theorem forall_ne_encode_iff {bytes : List UInt8} :
    (∀ text, bytes ≠ encode text) ↔
      ∃ text rest, bytes = encode text ++ rest ∧ Malformed rest := by
  constructor
  · intro hne
    induction bytes using written_induction with
    | nil => exact absurd rfl (hne "")
    | written character behind ih =>
      obtain ⟨text, rest, rfl, hrest⟩ := ih fun text hbehind ↦ by
        refine hne (.ofList (character :: text.toList)) ?_
        rw [encode_cons, hbehind]
      refine ⟨.ofList (character :: text.toList), rest, ?_, hrest⟩
      rw [encode_cons, List.append_assoc]
    | malformed bytes hbytes => exact ⟨"", bytes, rfl, hbytes⟩
  · rintro ⟨valid, rest, rfl, hrest⟩ text heq
    have hdecode := decode_encode text
    rw [← heq, decode_encode_append, hrest.decode_eq_none] at hdecode
    cases hdecode

end ClassFormat.Text.ModifiedUtf8
