/-! # Files

What reading a file can come to, and a folder held in memory: files by name, none of them inside
another folder. A path is walked name by name. It may leave the folder for those around it, of which
nothing is known but that they are folders.
-/

namespace Wasm.CommandLine

/-- Why a file could not be read: the system's number and text for it. -/
structure FileFault where
  number : Nat
  text : String
deriving DecidableEq, Repr

namespace FileFault

def missing : FileFault := ⟨2, "No such file or directory"⟩

def failed : FileFault := ⟨5, "Input/output error"⟩

def denied : FileFault := ⟨13, "Permission denied"⟩

def notFolder : FileFault := ⟨20, "Not a directory"⟩

def isFolder : FileFault := ⟨21, "Is a directory"⟩

def nameTooLong : FileFault := ⟨36, "File name too long"⟩

def message (f : FileFault) : String := f.text ++ " (os error " ++ toString f.number ++ ")"

end FileFault

/-- Files by name. -/
structure Folder where
  files : List (String × List UInt8)

/-- Where a walk along a path has come to. -/
inductive Place where
  /-- The folder itself. -/
  | inside
  /-- A folder around it. -/
  | outside
  | file (bytes : List UInt8)
deriving DecidableEq, Repr

namespace Folder

/-- The most bytes in one name of a path. -/
def longestName : Nat := 255

/-- The most bytes in a path. -/
def longestPath : Nat := 4095

/-- What a name stands for where it is met. -/
def enter (f : Folder) (place : Place) (name : String) : Except FileFault Place :=
  match place, f.files.lookup name with
  | .inside, some bytes => .ok (.file bytes)
  | _, _ => .error .missing

/-- One name along a path: an empty name or a dot stays where it is, two dots lead out, and nothing lies
below a file. A name is measured only where it would be looked up. -/
def step (f : Folder) (place : Place) (name : String) : Except FileFault Place :=
  match place with
  | .file _ => .error .notFolder
  | .inside | .outside =>
    if name = "" ∨ name = "." then .ok place
    else if name = ".." then .ok .outside
    else if longestName < name.utf8ByteSize then .error .nameTooLong
    else f.enter place name

/-- Where a path leads. It starts in the folder, or outside of it if a slash comes first. -/
def walk (f : Folder) (path : String) : Except FileFault Place :=
  let start := if path.toList.head? = some '/' then .outside else .inside
  ((path.toList.splitOn '/').map String.ofList).foldlM f.step start

/-- Reads the file at a path. The empty path leads nowhere. -/
def read (f : Folder) (path : String) : Except FileFault (List UInt8) :=
  if path = "" then .error .missing
  else if longestPath < path.utf8ByteSize then .error .nameTooLong
  else
    match f.walk path with
    | .ok (.file bytes) => .ok bytes
    | .ok .inside | .ok .outside => .error .isFolder
    | .error fault => .error fault

end Folder

end Wasm.CommandLine
