import Wasm.CommandLine.Folder
import Wasm.CommandLine.Request
import Wasm.Tree.Summary
import Wasm.Validate

/-! # Running the command

Each file is checked by itself. A verdict takes one line, on the output for a valid module and on the
error output for any other; summaries take the place of the lines for valid modules. The exit status
tells whether every module was valid.
-/

namespace Wasm.CommandLine

/-- What a run leaves: its status and all it wrote. -/
structure Outcome where
  status : UInt32 := 0
  output : String := ""
  errors : String := ""
deriving DecidableEq, Repr

def versionText : String := "wasmcheck 0.1.0\n"

def usage : String := "Usage: wasmcheck [OPTIONS] <FILES>...\n"

def helpText : String :=
  "Validate WebAssembly binary modules\n\n" ++ usage ++ "\n" ++
  "Arguments:\n" ++
  "  <FILES>...  Modules to validate\n\n" ++
  "Options:\n" ++
  "  -v, --verbose...  More logging; repeat for instruction-level tracing\n" ++
  "  -q, --quiet       Only report through the exit status\n" ++
  "      --tree        Print a JSON summary of each valid module\n" ++
  "  -h, --help        Print help\n" ++
  "  -V, --version     Print version\n"

/-- A decoding error by its message; a violation is followed by its normalised cause. -/
def errorText : Binary.DecodeError → String
  | .violation v => v.message ++ " (" ++ v.cause ++ ")"
  | e => e.message

/-- The tree of a module, with a log if one is to be shown. -/
def examine (o : Options) (bytes : List UInt8) : Except Binary.DecodeError Tree × Array LogLine :=
  if LogLevel.debug.verbosity ≤ o.verbosity then narrateValidateTree bytes
  else (validateTree bytes, #[])

/-- The lines of a log that are talkative enough to be shown. -/
def shown (o : Options) (log : List LogLine) : String :=
  String.join ((log.filter fun line => line.level.verbosity ≤ o.verbosity).map fun line =>
    "[" ++ line.level.name ++ "] " ++ line.text ++ "\n")

/-- What a valid module adds to the outcome. -/
def Outcome.accept (done : Outcome) (o : Options) (path : String) (tree : Tree) : Outcome :=
  let count := ⟨.info, path ++ ": " ++ toString tree.functions.size ++ " functions, " ++
    toString tree.globals.size ++ " globals"⟩
  let line :=
    if o.tree then tree.summary.document.pretty ++ "\n"
    else if o.quiet then ""
    else path ++ ": valid\n"
  { done with output := done.output ++ line, errors := done.errors ++ shown o [count] }

/-- What any other file adds to the outcome. -/
def Outcome.reject (done : Outcome) (o : Options) (path : String) (message : String) : Outcome :=
  let line := if o.quiet then "" else path ++ ": invalid: " ++ message ++ "\n"
  { done with status := 1, errors := done.errors ++ line }

/-- What one file adds to the outcome, given what reading it came to. -/
def Outcome.add (done : Outcome) (o : Options) (path : String)
    (content : Except FileFault (List UInt8)) : Outcome :=
  match content with
  | .error fault => done.reject o path ("couldn't read: " ++ fault.message)
  | .ok bytes =>
    let (found, log) := examine o bytes
    let done := { done with errors := done.errors ++ shown o log.toList }
    match found with
    | .ok tree => done.accept o path tree
    | .error e => done.reject o path (errorText e)

variable {m : Type → Type} [Monad m]

/-- Checks files in order. -/
def checkFiles (read : String → m (Except FileFault (List UInt8))) (o : Options) (done : Outcome) :
    List String → m Outcome
  | [] => pure done
  | path :: rest => do
    let content ← read path
    checkFiles read o (done.add o path content) rest

/-- Does what the arguments ask for; `read` gives the content of a file. -/
def run (read : String → m (Except FileFault (List UInt8))) (arguments : List String) : m Outcome :=
  match Request.ofArguments arguments with
  | .check o => checkFiles read o {} o.files
  | .version => pure { output := versionText }
  | .help => pure { output := helpText }
  | .misuse mistake =>
    pure { status := 2, errors := "error: " ++ mistake.message ++ "\n\n" ++ usage ++
      "\nFor more information, try '--help'.\n" }

end Wasm.CommandLine
