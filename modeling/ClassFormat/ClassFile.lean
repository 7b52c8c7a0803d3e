import ClassFormat.Member

/-!
# Class files

A class file from its magic number to the attributes of the class. `ClassFile.decode` reads one
through a cursor and leaves what follows; `ClassFile.ofBytes` takes bytes that are a class file and
nothing else.
-/

set_option autoImplicit false
set_option relaxedAutoImplicit false

namespace ClassFormat

/-- A class file. -/
structure ClassFile where
  minorVersion : UInt16
  majorVersion : UInt16
  pool : ConstantPool
  accessFlags : AccessFlags .classFile
  thisClass : UInt16
  /-- Zero for the class that extends none. -/
  superClass : UInt16
  interfaces : List UInt16
  fields : List Field
  methods : List Method
  attributes : Attributes

namespace ClassFile

open Decoder

/-- The number that a class file begins with. -/
def magic : UInt32 := 0xcafebabe

section Texts

variable [Text.Decoding]

/-- The name of the class. -/
def thisClassName (file : ClassFile) : Except LookupError String :=
  file.pool.className file.thisClass.toNat

/-- The name of the class that this one extends, if it extends one. -/
def superClassName (file : ClassFile) : Except LookupError (Option String) :=
  if file.superClass = 0 then .ok none else some <$> file.pool.className file.superClass.toNat

/-- The place of the first method with the given name and descriptor. -/
def indexOfMethod? (file : ClassFile) (name descriptor : String) : Option Nat :=
  file.methods.findIdx? fun method ↦ method.isNamed file.pool name descriptor

/-- The first method with the given name and descriptor. -/
def method? (file : ClassFile) (name descriptor : String) : Option Method :=
  file.methods.find? fun method ↦ method.isNamed file.pool name descriptor

end Texts

/-- Reads the magic number. -/
def decodeMagic : Decoder Unit := do
  let start ← offset
  let found ← u4
  if found = magic then return () else failAt start (.badMagic found)

/-- Reads a class file. -/
def decode : Decoder ClassFile := do
  decodeMagic
  let minorVersion ← u2
  let majorVersion ← u2
  record (.version majorVersion minorVersion)
  let pool ← ConstantPool.decode
  let bits ← u2
  let thisClass ← u2
  let superClass ← u2
  let interfaceCount ← u2
  let interfaces ← times interfaceCount.toNat u2
  let fieldCount ← u2
  let fields ← times fieldCount.toNat (Member.decode (some pool))
  let methodCount ← u2
  let methods ← times methodCount.toNat (Member.decode (some pool))
  record (.members interfaceCount fieldCount methodCount)
  let attributes ← Attributes.decode (some pool)
  return {
    minorVersion, majorVersion, pool, accessFlags := ⟨bits⟩, thisClass, superClass, interfaces
    fields, methods, attributes }

/-- Reads a class file that the input ends behind. -/
def decodeWhole : Decoder ClassFile := do
  let file ← decode
  let left ← remaining
  if ← atEnd then return file else fail (.trailing left)

/-- The class file that the bytes are, with the events of reading it. -/
def ofBytes (bytes : List UInt8) : Except DecodeError ClassFile × List Event :=
  match decodeWhole.run (State.start (Cursor.ofBytes bytes)) with
  | .ok file after => (.ok file, after.log.toList)
  | .error error after => (.error error, after.log.toList)

end ClassFile

end ClassFormat
