import Wasm.Types.Check

/-! # Index spaces

What a module has declared so far, each kind of thing numbered from zero in order of appearance. Spaces
only grow. Imports come before definitions of the same kind, so the imported functions and globals have
the lowest numbers. Data segments can be named by code only once their number is declared.
-/

namespace Wasm

structure IndexSpace where
  types : Array FuncType := #[]
  /-- The type index of each function. -/
  functions : Array UInt32 := #[]
  importedFunctions : Nat := 0
  tables : Array TableType := #[]
  memories : Array Limits := #[]
  globals : Array GlobalType := #[]
  importedGlobals : Nat := 0
  elements : Array RefType := #[]
  dataCount : Option UInt32 := none
deriving DecidableEq, Repr

namespace IndexSpace

def addType (s : IndexSpace) (t : FuncType) : IndexSpace := { s with types := s.types.push t }

def addFunction (s : IndexSpace) (type : UInt32) : IndexSpace :=
  { s with functions := s.functions.push type }

def importFunction (s : IndexSpace) (type : UInt32) : IndexSpace :=
  { s with functions := s.functions.push type, importedFunctions := s.importedFunctions + 1 }

def addTable (s : IndexSpace) (t : TableType) : IndexSpace := { s with tables := s.tables.push t }

def addMemory (s : IndexSpace) (l : Limits) : IndexSpace := { s with memories := s.memories.push l }

def addGlobal (s : IndexSpace) (t : GlobalType) : IndexSpace := { s with globals := s.globals.push t }

def importGlobal (s : IndexSpace) (t : GlobalType) : IndexSpace :=
  { s with globals := s.globals.push t, importedGlobals := s.importedGlobals + 1 }

def addElement (s : IndexSpace) (t : RefType) : IndexSpace := { s with elements := s.elements.push t }

def setDataCount (s : IndexSpace) (count : UInt32) : IndexSpace := { s with dataCount := some count }

/-- The entry at an index, or the violation that names the index and what it misses. -/
def find {α : Type} (kind : IndexKind) (entries : Array α) (index : UInt32) : Verdict α :=
  match entries[index.toNat]? with
  | some entry => .ok entry
  | none => .error (.unknown kind index)

def type (s : IndexSpace) (index : UInt32) : Verdict FuncType := find .type s.types index

/-- The signature of a function. -/
def function (s : IndexSpace) (index : UInt32) : Verdict FuncType := do
  let type ← find .function s.functions index
  s.type type

def table (s : IndexSpace) (index : UInt32) : Verdict TableType := find .table s.tables index

def memory (s : IndexSpace) (index : UInt32) : Verdict Limits := find .memory s.memories index

def global (s : IndexSpace) (index : UInt32) : Verdict GlobalType := find .global s.globals index

/-- The reference type of an element segment. -/
def element (s : IndexSpace) (index : UInt32) : Verdict RefType := find .elemSegment s.elements index

def checkData (s : IndexSpace) (index : UInt32) : Verdict Unit :=
  match s.dataCount with
  | none => .error (.dataCountRequired index)
  | some count => if index < count then .ok () else .error (.unknown .dataSegment index)

/-- How many functions have a body in the module. -/
def definedFunctions (s : IndexSpace) : Nat := s.functions.size - s.importedFunctions

end IndexSpace

end Wasm
