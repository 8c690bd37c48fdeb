/-! # What a command line asks for

Options may stand before, between and after the files, short ones also in a cluster; `--` ends them.
Asking for help or the version takes effect where it stands, as do mistakes: whichever comes first wins.
What options and files amount to together is judged at the end.
-/

namespace Wasm.CommandLine

structure Options where
  files : List String := []
  verbosity : Nat := 0
  quiet : Bool := false
  tree : Bool := false
deriving DecidableEq, Repr

/-- Mistakes of usage. -/
inductive Misuse where
  | unexpected (argument : String)
  | unwantedValue (option : String)
  | repeated (option : String)
  | emptyFile
  | quietAndVerbose
  | noFiles
deriving DecidableEq, Repr

inductive Request where
  | check (options : Options)
  | version
  | help
  | misuse (m : Misuse)
deriving DecidableEq, Repr

namespace Misuse

def message : Misuse → String
  | unexpected argument => "unexpected argument '" ++ argument ++ "' found"
  | unwantedValue option => "unexpected value for '" ++ option ++ "' found; no more were expected"
  | repeated option => "the argument '" ++ option ++ "' cannot be used multiple times"
  | emptyFile => "a value is required for '<FILES>...' but none was supplied"
  | quietAndVerbose => "the argument '--quiet' cannot be used with '--verbose...'"
  | noFiles => "the following required arguments were not provided:\n  <FILES>..."

end Misuse

/-- The options there are. -/
inductive Flag where
  | verbose | quiet | tree | help | version
deriving DecidableEq, Repr

namespace Flag

def ofLong? : String → Option Flag
  | "verbose" => some verbose
  | "quiet" => some quiet
  | "tree" => some tree
  | "help" => some help
  | "version" => some version
  | _ => none

def ofShort? : Char → Option Flag
  | 'v' => some verbose
  | 'q' => some quiet
  | 'h' => some help
  | 'V' => some version
  | _ => none

/-- Adds an option to those before it, or answers at once. -/
def apply (o : Options) : Flag → Except Request Options
  | verbose => .ok { o with verbosity := o.verbosity + 1 }
  | quiet => if o.quiet then .error (.misuse (.repeated "--quiet")) else .ok { o with quiet := true }
  | tree => if o.tree then .error (.misuse (.repeated "--tree")) else .ok { o with tree := true }
  | help => .error .help
  | version => .error .version

end Flag

namespace Options

def addFile (o : Options) (file : String) : Except Request Options :=
  if file = "" then .error (.misuse .emptyFile) else .ok { o with files := o.files ++ [file] }

def addFiles (o : Options) : List String → Except Request Options
  | [] => .ok o
  | file :: rest => do
    let o ← o.addFile file
    o.addFiles rest

/-- A cluster of short options. -/
def addShort (o : Options) : List Char → Except Request Options
  | [] => .ok o
  | c :: rest =>
    match Flag.ofShort? c with
    | none => .error (.misuse (.unexpected ("-" ++ c.toString)))
    | some flag => do
      let o ← flag.apply o
      o.addShort rest

/-- A long option, given without its dashes. No option takes a value. -/
def addLong (o : Options) (text : List Char) : Except Request Options :=
  let name := String.ofList (text.takeWhile (· ≠ '='))
  match Flag.ofLong? name with
  | none => .error (.misuse (.unexpected ("--" ++ name)))
  | some flag =>
    if text.contains '=' then .error (.misuse (.unwantedValue ("--" ++ name))) else flag.apply o

/-- All arguments in order. -/
def addAll (o : Options) : List String → Except Request Options
  | [] => .ok o
  | argument :: rest =>
    match argument.toList with
    | ['-', '-'] => o.addFiles rest
    | '-' :: '-' :: text => do
      let o ← o.addLong text
      o.addAll rest
    | '-' :: c :: cluster => do
      let o ← o.addShort (c :: cluster)
      o.addAll rest
    | _ => do
      let o ← o.addFile argument
      o.addAll rest

/-- Some file is needed, and quiet runs have nothing to be verbose about. -/
def judge (o : Options) : Request :=
  if o.quiet && 0 < o.verbosity then .misuse .quietAndVerbose
  else if o.files.isEmpty then .misuse .noFiles
  else .check o

end Options

namespace Request

def ofArguments (arguments : List String) : Request :=
  match ({} : Options).addAll arguments with
  | .ok o => o.judge
  | .error request => request

end Request

end Wasm.CommandLine
