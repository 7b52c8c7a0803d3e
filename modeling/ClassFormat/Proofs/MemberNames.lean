import ClassFormat.ClassFile
import ClassFormat.Proofs.ModifiedUtf8

/-!
# The names of members

What is said here of texts is true of every decoding that reads exactly the written forms of texts,
each as its text. With such a decoding a pool gives the text of an entry exactly if the entry is how
this text is written (`ConstantPool.text_eq_ok_iff`), so that entries of other bytes are never read
as the same name. Looking a method up by the texts of its name and descriptor is therefore looking
for the bytes of two entries (`Member.isNamed_iff`), and a method whose name is malformed, or is no
text at all, is passed over.

The main statement is `ClassFile.texts_and_methods`.
-/

set_option autoImplicit false
set_option relaxedAutoImplicit false

namespace ClassFormat

open Text.ModifiedUtf8 (encode encodeUnit Malformed)

theorem ConstantPool.utf8_eq_ok_iff {pool : ConstantPool} {index : Nat} {bytes : List UInt8} :
    pool.utf8 index = .ok bytes ↔ pool.constant index = .ok (.utf8 bytes) := by
  rw [utf8]
  cases hentry : pool.constant index with
  | error error => exact iff_of_false nofun nofun
  | ok constant =>
    cases constant
    case utf8 held => exact ⟨fun heq ↦ by cases heq; rfl, fun heq ↦ by cases heq; rfl⟩
    all_goals exact iff_of_false nofun nofun

/-- Whether the name and the descriptor of a member are entries of the given bytes. -/
def Member.HasEntries {declared : Declared} (member : Member declared) (pool : ConstantPool)
    (name descriptor : List UInt8) : Prop :=
  pool.constant member.nameIndex.toNat = .ok (.utf8 name) ∧
    pool.constant member.descriptorIndex.toNat = .ok (.utf8 descriptor)

section Decodings

variable [Text.Decoding]

/-- An entry that is a text is read, or it is malformed. -/
theorem ConstantPool.text_of_utf8 {pool : ConstantPool} {index : Nat} {bytes : List UInt8}
    (hentry : pool.constant index = .ok (.utf8 bytes)) :
    pool.text index =
      match Text.Decoding.decode bytes with
      | some text => .ok text
      | none => .error (.malformedText index) := by
  rw [text, utf8_eq_ok_iff.mpr hentry]
  rfl

variable (hdecode : ∀ bytes text, Text.Decoding.decode bytes = some text ↔ bytes = encode text)

include hdecode

namespace ConstantPool

variable {pool : ConstantPool} {index : Nat} {bytes : List UInt8}

/-- A text is read from the entry that is how it is written. -/
theorem text_of_utf8_eq_ok_iff (hentry : pool.constant index = .ok (.utf8 bytes)) (text : String) :
    pool.text index = .ok text ↔ bytes = encode text := by
  rw [text_of_utf8 hentry, ← hdecode]
  cases Text.Decoding.decode bytes with
  | none => exact iff_of_false nofun nofun
  | some held => rw [Except.ok.injEq, Option.some_inj]

/-- An entry is malformed if no text is written so. -/
theorem text_of_utf8_eq_error_iff (hentry : pool.constant index = .ok (.utf8 bytes)) :
    pool.text index = .error (.malformedText index) ↔ ∀ text, bytes ≠ encode text := by
  rw [text_of_utf8 hentry]
  simp only [ne_eq, ← hdecode]
  cases Text.Decoding.decode bytes with
  | none => exact iff_of_true rfl nofun
  | some held => exact iff_of_false nofun fun hnone ↦ hnone held rfl

/-- An index gives a text exactly if its entry is how this text is written. -/
theorem text_eq_ok_iff {text : String} :
    pool.text index = .ok text ↔ pool.constant index = .ok (.utf8 (encode text)) := by
  constructor
  · intro htext
    cases hutf8 : pool.utf8 index with
    | error error =>
      rw [ConstantPool.text, hutf8] at htext
      cases htext
    | ok bytes =>
      have hentry := utf8_eq_ok_iff.mp hutf8
      rw [hentry, (text_of_utf8_eq_ok_iff hdecode hentry text).mp htext]
  · intro hentry
    exact (text_of_utf8_eq_ok_iff hdecode hentry text).mpr rfl

end ConstantPool

/-- A member has a name and a descriptor exactly if its entries are how these are written. -/
theorem Member.isNamed_iff {declared : Declared} {member : Member declared} {pool : ConstantPool}
    {name descriptor : String} :
    member.isNamed pool name descriptor ↔
      member.HasEntries pool (encode name) (encode descriptor) := by
  have htext (index : Nat) (text : String) : (pool.text index).toOption = some text ↔
      pool.constant index = .ok (.utf8 (encode text)) := by
    rw [← ConstantPool.text_eq_ok_iff hdecode]
    cases pool.text index with
    | error error => exact iff_of_false nofun nofun
    | ok held => rw [Except.toOption, Option.some_inj, Except.ok.injEq]
  rw [isNamed, Bool.and_eq_true, decide_eq_true_iff, decide_eq_true_iff]
  exact and_congr (htext _ name) (htext _ descriptor)

namespace ClassFile

/-- The method that is found is the first one with the entries, and none is found if no method has
them. -/
theorem method?_eq_some_iff {file : ClassFile} {name descriptor : String} {method : Method} :
    file.method? name descriptor = some method ↔
      method.HasEntries file.pool (encode name) (encode descriptor) ∧
        ∃ before behind, file.methods = before ++ method :: behind ∧
          ∀ other ∈ before, ¬other.HasEntries file.pool (encode name) (encode descriptor) := by
  rw [method?, List.find?_eq_some_iff_append]
  simp only [Bool.not_eq_true', ← Bool.not_eq_true, Member.isNamed_iff hdecode]

theorem method?_eq_none_iff {file : ClassFile} {name descriptor : String} :
    file.method? name descriptor = none ↔
      ∀ method ∈ file.methods, ¬method.HasEntries file.pool (encode name) (encode descriptor) := by
  rw [method?, List.find?_eq_none]
  simp only [Member.isNamed_iff hdecode]

end ClassFile

end Decodings

namespace ClassFile

/-- Let exactly the written forms of texts be read, each as its text. Then texts are read from the
entries of a pool exactly from how they are written, and an entry that is not read is malformed, so
that no two entries are read as the same text. Methods are found by how their names and descriptors
are written, and those before the one that is found are written otherwise or not at all. -/
theorem texts_and_methods [Text.Decoding]
    (hdecode : ∀ bytes text, Text.Decoding.decode bytes = some text ↔ bytes = encode text) :
    (∀ (pool : ConstantPool) (index : Nat) (bytes : List UInt8),
      pool.constant index = .ok (.utf8 bytes) →
        (∀ text, pool.text index = .ok text ↔ bytes = encode text) ∧
        (pool.text index = .error (.malformedText index) ↔ ∀ text, bytes ≠ encode text) ∧
        ((∀ text, bytes ≠ encode text) ↔
          ∃ text rest, bytes = encode text ++ rest ∧ Malformed rest) ∧
        ∀ (other : ConstantPool) (otherIndex : Nat) (otherBytes : List UInt8) (text : String),
          other.constant otherIndex = .ok (.utf8 otherBytes) → pool.text index = .ok text →
          other.text otherIndex = .ok text → bytes = otherBytes) ∧
      ∀ (file : ClassFile) (name descriptor : String),
        (∀ method, file.method? name descriptor = some method ↔
          method.HasEntries file.pool (encode name) (encode descriptor) ∧
            ∃ before behind, file.methods = before ++ method :: behind ∧
              ∀ other ∈ before, ¬other.HasEntries file.pool (encode name) (encode descriptor)) ∧
        (file.method? name descriptor = none ↔
          ∀ method ∈ file.methods,
            ¬method.HasEntries file.pool (encode name) (encode descriptor)) := by
  refine ⟨fun pool index bytes hentry ↦ ⟨ConstantPool.text_of_utf8_eq_ok_iff hdecode hentry,
    ConstantPool.text_of_utf8_eq_error_iff hdecode hentry, Text.ModifiedUtf8.forall_ne_encode_iff,
    ?_⟩, fun file name descriptor ↦
      ⟨fun method ↦ method?_eq_some_iff hdecode, method?_eq_none_iff hdecode⟩⟩
  intro other otherIndex otherBytes text hother htext hotherText
  rw [(ConstantPool.text_of_utf8_eq_ok_iff hdecode hentry text).mp htext,
    (ConstantPool.text_of_utf8_eq_ok_iff hdecode hother text).mp hotherText]

/-- A class whose first method has a name that is malformed, a surrogate alone. The other two have
the name of a zero and an emoji and differ in their flags. -/
def malformedFirst : ClassFile where
  minorVersion := 0
  majorVersion := 52
  pool := .ofConstants [.utf8 [0xed, 0xa0, 0xbd], .utf8 [0x28, 0x29, 0x56],
    .utf8 [0xc0, 0x80, 0xed, 0xa0, 0xbd, 0xed, 0xb8, 0x80]]
  accessFlags := ⟨0⟩
  thisClass := 0
  superClass := 0
  interfaces := []
  fields := []
  methods := [⟨⟨0⟩, 1, 2, []⟩, ⟨⟨1⟩, 3, 2, []⟩, ⟨⟨2⟩, 3, 2, []⟩]
  attributes := []

/-- The malformed name is passed over, and of the other methods the first one is found, where texts
are read as modified UTF-8. -/
theorem malformedFirst_passedOver :
    (∀ bytes text, Text.Decoding.decode bytes = some text ↔ bytes = encode text) ∧
      malformedFirst.pool.text 1 = .error (.malformedText 1) ∧
      malformedFirst.pool.text 3 = .ok "\u0000😀" ∧
      malformedFirst.method? "\u0000😀" "()V" = some ⟨⟨1⟩, 3, 2, []⟩ := by
  have hdecode (bytes : List UInt8) (text : String) :
      Text.Decoding.decode bytes = some text ↔ bytes = encode text :=
    Text.ModifiedUtf8.decode_eq_some_iff
  obtain ⟨htexts, hmethods⟩ := texts_and_methods hdecode
  have hlone : Malformed (encodeUnit 0xd83d ++ []) := by
    refine .loneHigh (by decide) fun low behind hlow heq ↦ ?_
    have hbounds := Text.ModifiedUtf8.isLowSurrogate_iff.mp hlow
    have hform := Text.ModifiedUtf8.form_encodeUnit (by omega : low < 0x10000)
    rw [(List.nil_eq_append_iff.mp heq).1] at hform
    exact absurd hform.length_pos (Nat.lt_irrefl 0)
  have hfirst : malformedFirst.pool.text 1 = .error (.malformedText 1) := by
    obtain ⟨-, herror, hmalformed, -⟩ := htexts malformedFirst.pool 1 [0xed, 0xa0, 0xbd] rfl
    exact herror.mpr (hmalformed.mpr ⟨"", _, rfl, hlone⟩)
  have hname : [0xc0, 0x80, 0xed, 0xa0, 0xbd, 0xed, 0xb8, 0x80] = encode "\u0000😀" := by
    decide +kernel
  have hdescriptor : [0x28, 0x29, 0x56] = encode "()V" := by decide +kernel
  refine ⟨hdecode, hfirst, ((htexts malformedFirst.pool 3 _ rfl).1 _).mpr hname, ?_⟩
  refine ((hmethods malformedFirst _ _).1 _).mpr
    ⟨⟨?_, ?_⟩, [⟨⟨0⟩, 1, 2, []⟩], [⟨⟨2⟩, 3, 2, []⟩], rfl, ?_⟩
  · rw [← hname]
    rfl
  · rw [← hdescriptor]
    rfl
  · intro other hother hentries
    rw [List.mem_singleton.mp hother] at hentries
    have htext := (ConstantPool.text_eq_ok_iff hdecode).mpr hentries.1
    rw [show malformedFirst.pool.text (1 : UInt16).toNat = _ from hfirst] at htext
    cases htext

end ClassFile

end ClassFormat
