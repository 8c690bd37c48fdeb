import Wasm.CommandLine.Run

/-! # The command

Reads the files named on the command line and writes what checking them came to.
-/

namespace Wasm.CommandLine

namespace FileFault

/-- What an error of the system means for a file that was to be read. -/
def ofSystem : IO.Error → FileFault
  | .noFileOrDirectory .. => missing
  | .permissionDenied .. => denied
  | .inappropriateType _ number _ => if number.toNat = isFolder.number then isFolder else notFolder
  | .invalidArgument (some _) .. => nameTooLong
  | _ => failed

end FileFault

/-- Reads a file of the system. -/
def readFile (path : String) : IO (Except FileFault (List UInt8)) := do
  try
    let bytes ← IO.FS.readBinFile path
    pure (.ok bytes.toList)
  catch e => pure (.error (.ofSystem e))

end Wasm.CommandLine

def main (arguments : List String) : IO UInt32 := do
  let outcome ← Wasm.CommandLine.run Wasm.CommandLine.readFile arguments
  (← IO.getStdout).putStr outcome.output
  (← IO.getStderr).putStr outcome.errors
  pure outcome.status
