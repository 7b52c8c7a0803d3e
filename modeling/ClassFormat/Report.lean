import ClassFormat.CommandLine
import ClassFormat.Listing
import ClassFormat.Text.ModifiedUtf8

/-!
# Reports

What listing some files comes to: the text, the events on the way, and the failure that ended it.
Files are listed in order, and the first that cannot be read or is not a class file is the last.
-/

set_option autoImplicit false
set_option relaxedAutoImplicit false

namespace ClassFormat

/-- Why a file has no content. -/
inductive ReadFailure where
  | notFound
  | other (reason : String)
  deriving DecidableEq, Repr

/-- The text of a failure to read. -/
def ReadFailure.message : ReadFailure → String
  | notFound => "No such file or directory (os error 2)"
  | other reason => reason

/-- Why a file cannot be listed. -/
inductive Report.Failure where
  | unreadable (name : String) (failure : ReadFailure)
  | undecodable (name : String) (error : DecodeError)
  deriving DecidableEq, Repr

/-- The text of a failure. -/
def Report.Failure.message : Report.Failure → String
  | unreadable name failure => s!"reading {name}: {failure.message}"
  | undecodable name error => s!"decoding {name}: {error.message}"

/-- What listing files comes to. -/
structure Report where
  text : String
  log : List Event
  failure : Option Report.Failure
  deriving DecidableEq, Repr

namespace Report

/-- What a request wants to see of each file. -/
def contents (request : CommandLine.Request) : Listing.Contents :=
  ⟨request.constants, !request.noCode⟩

/-- How much detail of the log a request wants to see. -/
def level (request : CommandLine.Request) : Event.Level :=
  match request.verbosity with
  | 0 => .warn
  | 1 => .debug
  | _ => .trace

/-- Lists files in order, each with its name and its content. -/
def ofFiles [Text.Decoding] (contents : Listing.Contents) :
    List (String × Except ReadFailure (List UInt8)) → Report
  | [] => ⟨"", [], none⟩
  | (name, .error failure) :: _ => ⟨"", [], some (.unreadable name failure)⟩
  | (name, .ok bytes) :: rest =>
    let (decoded, log) := ClassFile.ofBytes bytes
    let log := .content name bytes.length :: log
    match decoded with
    | .error error => ⟨"", log, some (.undecodable name error)⟩
    | .ok file =>
      let lines := Listing.lines contents name file
      let report := ofFiles contents rest
      ⟨Listing.shown lines ++ report.text, log ++ Listing.events lines ++ report.log,
        report.failure⟩

end Report

end ClassFormat
