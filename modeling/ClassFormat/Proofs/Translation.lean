import ClassFormat.Proofs.Simulation.Decoders

/-!
# Bytes before the input

What further bytes before the input change: every place, and nothing else. A cursor counts bytes
from where it began, errors and events count them from the start of the whole input, and the
addresses of instructions count them from the start of the code. `Reader` lists the structures that
can be read, and the main statement, `Reader.run_precededBy`, says for each of them that skipping
some bytes and then reading is reading without these bytes, with their number added to the first two
counts and the third one as it was.
-/

set_option autoImplicit false
set_option relaxedAutoImplicit false

namespace ClassFormat

/-! ### Translated cursors, states and results -/

namespace Cursor

/-- The cursor with further bytes before those that it has. -/
def precededBy (cursor : Cursor) (before : List UInt8) : Cursor :=
  { cursor with rest := before ++ cursor.rest, length := cursor.length + before.length }

/-- The cursor over the same bytes that has read `shift` others before them. -/
def translated (cursor : Cursor) (shift : Nat) : Cursor :=
  { cursor with position := cursor.position + shift, length := cursor.length + shift }

theorem translated_absolute (cursor : Cursor) (shift : Nat) :
    (cursor.translated shift).absolute = cursor.absolute + shift :=
  (Nat.add_assoc _ _ _).symm

theorem advance_translated (cursor : Cursor) (shift count : Nat) :
    (cursor.translated shift).advance count = (cursor.advance count).translated shift := by
  have hposition : cursor.position + shift + count = cursor.position + count + shift := by omega
  simp only [translated, advance, hposition]

/-- Behind the further bytes stands the translated cursor. -/
theorem advance_precededBy (cursor : Cursor) (before : List UInt8) :
    (cursor.precededBy before).advance before.length = cursor.translated before.length := by
  simp [precededBy, translated, advance]

end Cursor

namespace Decoder

variable {α : Type}

/-- The state behind `shift` further bytes. -/
def State.translated (state : State) (shift : Nat) : State :=
  ⟨state.cursor.translated shift, state.log.map (·.moved shift)⟩

/-- The result of a run behind `shift` further bytes: the same value, or the same cause at a place
further on, and the cursor and the events further on. -/
def translated (shift : Nat) :
    EStateM.Result DecodeError State α → EStateM.Result DecodeError State α :=
  mapped (·.translated shift) (·.moved shift)

theorem skip_precededBy (cursor : Cursor) (before : List UInt8) (log : Array Event) :
    skip before.length ⟨cursor.precededBy before, log⟩ =
      .ok () ⟨cursor.translated before.length, log⟩ := by
  have htaken : take before.length ⟨cursor.precededBy before, log⟩ =
      .ok before ⟨cursor.translated before.length, log⟩ := by
    refine take_run_eq_ok_iff.mpr ⟨rfl, List.prefix_append _ _, ?_⟩
    rw [Cursor.advance_precededBy]
  show (take before.length >>= fun _ ↦ pure ()) _ = _
  rw [bind_of_ok htaken]
  rfl

end Decoder

/-! ### The comparison -/

/-- The same bytes, without and with `shift` others before them. -/
def Simulation.translation (shift : Nat) : Simulation where
  cursors left right := right = left.translated shift
  shift := shift
  lead := shift
  errors first second := second = first.moved shift
  gap _ := False
  logs left right := right = left.map (·.moved shift)
  absolute_eq hright := hright ▸ Cursor.translated_absolute _ shift
  position_eq hright := hright ▸ rfl
  depth_eq hright := hright ▸ rfl
  errors_moved _ := rfl
  logs_push event hlogs := by rw [hlogs, Array.map_push]
  take_together count hright := Cursor.takeTogether_of_same_bytes (·.translated shift) (fun _ ↦ rfl)
    (fun _ ↦ rfl) (Cursor.translated_absolute · shift) (Cursor.advance_translated · shift ·) count
    hright

namespace Decoder

variable {α : Type} {item : Decoder α}

/-- A decoder that keeps together with itself gives the translated result in a translated state. -/
theorem run_translated (hitem : ∀ sim : Simulation, sim.Relates item item) (state : State)
    (shift : Nat) : item (state.translated shift) = translated shift (item state) := by
  refine (hitem (.translation shift)).run_eq_mapped (·.translated shift) (·.moved shift)
    (fun left right hstates ↦ ?_) (fun _ _ herrors ↦ herrors) (fun _ hgap ↦ hgap) ⟨rfl, rfl⟩
  exact congrArg₂ State.mk hstates.cursors hstates.logs

end Decoder

/-! ### All structures -/

/-- A structure that can be read, with what its decoder is given. -/
inductive Reader : Type → Type
  | byte : Reader UInt8
  | number : Reader UInt16
  | constant : Reader Constant
  | pool : Reader ConstantPool
  | verificationType : Reader VerificationType
  | frame : Reader StackMapFrame
  | elementValue : Reader ElementValue
  | element : Reader (Element ElementValue)
  | annotation : Reader Annotation
  | parameterAnnotations : Reader (List Annotation)
  | innerClass : Reader InnerClass
  | exceptionHandler : Reader ExceptionHandler
  | lineNumber : Reader LineNumber
  | localVariable : Reader LocalVariable
  | bootstrapMethod : Reader BootstrapMethod
  | methodParameter : Reader MethodParameter
  | instructions (length : UInt32) : Reader InstructionList
  | namedAttribute (names : ConstantPool) : Reader Attribute
  | attributeTable (names : Option ConstantPool) : Reader Attributes
  | field (names : Option ConstantPool) : Reader Field
  | method (names : Option ConstantPool) : Reader Method
  | classFile : Reader ClassFile

namespace Reader

variable {α : Type}

/-- The decoder of a structure. -/
def decoder : {α : Type} → Reader α → Decoder α
  | _, byte => Decoder.u1
  | _, number => Decoder.u2
  | _, constant => Constant.decode
  | _, pool => ConstantPool.decode
  | _, verificationType => VerificationType.decode
  | _, frame => StackMapFrame.decode
  | _, elementValue => ElementValue.decode
  | _, element => Element.decode ElementValue.decode
  | _, annotation => Annotation.decode
  | _, parameterAnnotations => Annotation.decodeParameter
  | _, innerClass => InnerClass.decode
  | _, exceptionHandler => ExceptionHandler.decode
  | _, lineNumber => LineNumber.decode
  | _, localVariable => LocalVariable.decode
  | _, bootstrapMethod => BootstrapMethod.decode
  | _, methodParameter => MethodParameter.decode
  | _, instructions length => InstructionList.decode length
  | _, namedAttribute names => Attribute.decode names
  | _, attributeTable names => Attributes.decode names
  | _, field names => Member.decode names
  | _, method names => Member.decode names
  | _, classFile => ClassFile.decode

/-- The decoder of every structure keeps together with itself. -/
theorem decoder_relates (reader : Reader α) (sim : Simulation) :
    sim.Relates reader.decoder reader.decoder := by
  cases reader with
  | byte => exact .u1
  | number => exact .u2
  | constant => exact Constant.decode_plain.relates sim
  | pool => exact ConstantPool.decode_relates sim
  | verificationType => exact VerificationType.decode_plain.relates sim
  | frame => exact StackMapFrame.decode_plain.relates sim
  | elementValue => exact ElementValue.decode_plain.relates sim
  | element => exact (Element.decode_plain ElementValue.decode_plain).relates sim
  | annotation => exact Annotation.decode_plain.relates sim
  | parameterAnnotations => exact Annotation.decodeParameter_plain.relates sim
  | innerClass => exact InnerClass.decode_plain.relates sim
  | exceptionHandler => exact ExceptionHandler.decode_plain.relates sim
  | lineNumber => exact LineNumber.decode_plain.relates sim
  | localVariable => exact LocalVariable.decode_plain.relates sim
  | bootstrapMethod => exact BootstrapMethod.decode_plain.relates sim
  | methodParameter => exact MethodParameter.decode_plain.relates sim
  | instructions length => exact InstructionList.decode_relates sim length
  | namedAttribute names => exact Attribute.decode_relates sim names
  | attributeTable names => exact Attributes.decode_relates sim names
  | field names => exact Member.decode_relates sim names
  | method names => exact Member.decode_relates sim names
  | classFile => exact ClassFile.decode_relates sim

/-- Bytes before a structure change its place and nothing else. Skipping them and then reading gives
what reading gives without them: the same value, or an error of the same cause, with the number of
these bytes added to the position of the cursor and to the places of the error and the events. -/
theorem run_precededBy (reader : Reader α) (cursor : Cursor) (before : List UInt8) :
    (do Decoder.skip before.length; reader.decoder) (.start (cursor.precededBy before)) =
      Decoder.translated before.length (reader.decoder (.start cursor)) := by
  have hskip := Decoder.skip_precededBy cursor before #[]
  have hstart : (Decoder.State.start cursor).translated before.length =
      ⟨cursor.translated before.length, #[]⟩ := by
    simp [Decoder.State.translated, Decoder.State.start]
  rw [Decoder.State.start, Decoder.bind_of_ok hskip, ← hstart]
  exact Decoder.run_translated reader.decoder_relates (.start cursor) before.length

end Reader

end ClassFormat
