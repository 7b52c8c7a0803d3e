import ClassFormat.Report

/-!
# The program

Lists the class files that are named on the command line. The listing goes to the standard output,
the log and what went wrong to the standard error.
-/

set_option autoImplicit false
set_option relaxedAutoImplicit false

namespace ClassFormat

/-- Reads a file. -/
def readContent (name : String) : IO (Except ReadFailure (List UInt8)) := do
  try
    let content ← IO.FS.readBinFile name
    return .ok content.toList
  catch
    | .noFileOrDirectory .. => return .error .notFound
    | error => return .error (.other (toString error))

/-- Prints a report, and answers the exit code. -/
def Report.print (report : Report) (level : Event.Level) : IO UInt32 := do
  IO.print report.text
  for event in Event.upTo level report.log do
    IO.eprintln event.line
  match report.failure with
  | none => return 0
  | some failure =>
    IO.eprintln failure.message
    return 1

end ClassFormat

open ClassFormat in
/-- Runs the program. -/
def main (arguments : List String) : IO UInt32 := do
  match CommandLine.parse arguments with
  | .error error =>
    IO.eprintln error.message
    return 2
  | .ok request =>
    let files ← request.files.mapM fun name ↦ do return (name, ← readContent name)
    (Report.ofFiles (Report.contents request) files).print (Report.level request)
