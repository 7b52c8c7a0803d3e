/-!
# The command line

The arguments of the program: names of class files and options, in any order. Options are letters
behind one dash, which may stand together, or words behind two. Behind two dashes alone everything
is a name. Arguments are taken from the left, and the first one that cannot be taken decides what is
wrong. Names are not looked at when they are met but when the next option is taken, and at the end:
an argument that is no option at all is refused before them.
-/

set_option autoImplicit false
set_option relaxedAutoImplicit false

namespace ClassFormat.CommandLine

/-- What the program was asked to do. -/
structure Request where
  files : List String
  constants : Bool
  noCode : Bool
  /-- How often more detail of the log was asked for. -/
  verbosity : Nat
  deriving DecidableEq, Repr

/-- Why arguments are not a request. -/
inductive UsageError where
  | helpWanted
  | versionWanted
  | unknownArgument
  /-- An option that may be given once was given again. -/
  | repeatedOption
  /-- A value was given to an option that takes none. -/
  | unneededValue
  | emptyFileName
  | missingFile
  deriving DecidableEq, Repr

/-- The text that is shown when arguments are not a request. -/
def UsageError.message : UsageError → String
  | helpWanted => "usage: [-c|--constants] [--no-code] [-v|--verbose]... FILE..."
  | versionWanted => "version 1"
  | unknownArgument => "unknown argument"
  | repeatedOption => "an option is given more than once"
  | unneededValue => "an option takes no value"
  | emptyFileName => "the name of a file is empty"
  | missingFile => "no file is named"

/-- The options. None of them takes a value. -/
inductive Flag where
  | constants
  | noCode
  | verbose
  | help
  | version
  deriving DecidableEq, Repr

/-- The option of a letter. -/
def Flag.ofLetter? : Char → Option Flag
  | 'c' => some constants
  | 'v' => some verbose
  | 'h' => some help
  | 'V' => some version
  | _ => none

/-- The option of a word. -/
def Flag.ofWord? : String → Option Flag
  | "constants" => some constants
  | "no-code" => some noCode
  | "verbose" => some verbose
  | "help" => some help
  | "version" => some version
  | _ => none

namespace Request

/-- Nothing asked for yet. -/
def empty : Request := ⟨[], false, false, 0⟩

/-- Adds names of files. -/
def addFiles (request : Request) (names : List String) : Request :=
  { request with files := request.files ++ names }

/-- Refuses names that no file can have. -/
def checkFiles (request : Request) : Except UsageError Unit :=
  if "" ∈ request.files then .error .emptyFileName else .ok ()

/-- What taking an option does to a request whose names are in order. -/
def applyFlag (request : Request) : Flag → Except UsageError Request
  | .constants =>
    if request.constants then .error .repeatedOption else .ok { request with constants := true }
  | .noCode =>
    if request.noCode then .error .repeatedOption else .ok { request with noCode := true }
  | .verbose => .ok { request with verbosity := request.verbosity + 1 }
  | .help => .error .helpWanted
  | .version => .error .versionWanted

/-- Adds an option. The names that stand before it are checked first. -/
def addFlag (request : Request) (flag : Flag) : Except UsageError Request := do
  request.checkFiles
  request.applyFlag flag

/-- Adds the option of a letter. -/
def addLetter (request : Request) (letter : Char) : Except UsageError Request :=
  match Flag.ofLetter? letter with
  | some flag => request.addFlag flag
  | none => .error .unknownArgument

/-- Adds the option of a word, behind which a value may stand. -/
def addWord (request : Request) (word : List Char) : Except UsageError Request :=
  match Flag.ofWord? (String.ofList (word.takeWhile (· ≠ '='))) with
  | some flag => if '=' ∈ word then .error .unneededValue else request.addFlag flag
  | none => .error .unknownArgument

/-- Adds an argument that is not two dashes alone. -/
def addArgument (request : Request) (argument : String) : Except UsageError Request :=
  match argument.toList with
  | '-' :: '-' :: word => request.addWord word
  | '-' :: letter :: letters => (letter :: letters).foldlM addLetter request
  | _ => .ok (request.addFiles [argument])

/-- Adds arguments. -/
def addArguments (request : Request) : List String → Except UsageError Request
  | [] => .ok request
  | "--" :: names => .ok (request.addFiles names)
  | argument :: arguments => do (← request.addArgument argument).addArguments arguments

end Request

/-- The request that arguments make. There has to be a file. -/
def parse (arguments : List String) : Except UsageError Request := do
  let request ← Request.empty.addArguments arguments
  request.checkFiles
  if request.files.isEmpty then throw .missingFile
  return request

end ClassFormat.CommandLine
