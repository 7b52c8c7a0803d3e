import ClassFormat.CursorStack
import ClassFormat.Main
import ClassFormat.Proofs.CodeBounds
import ClassFormat.Proofs.CursorStack
import ClassFormat.Proofs.DeclaredLength
import ClassFormat.Proofs.Layout.ClassFile
import ClassFormat.Proofs.Mismatch
import ClassFormat.Proofs.Nesting.Annotations
import ClassFormat.Proofs.PoolSlots
import ClassFormat.Proofs.ShortReads
import ClassFormat.Proofs.Source
import ClassFormat.Proofs.Translation
import ClassFormat.Proofs.AddressIndex
import ClassFormat.Proofs.MemberNames
import ClassFormat.Proofs.Nesting.Attributes
import ClassFormat.Proofs.Places
import ClassFormat.Proofs.Log
import ClassFormat.Proofs.Disassembly
import ClassFormat.Proofs.Listing
import ClassFormat.Proofs.NameLookups
