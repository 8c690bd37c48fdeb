import Wasm.Validator.Basic

/-! # Validation of entries

Each entry is judged against what came before it. First comes its place in the section order, which is
taken up even if the entry then breaks another rule; the index spaces change only when all rules hold.
-/

namespace Wasm

namespace Validator

/-- Moves on to a section; sections may repeat but not go back, and nothing follows the end. -/
def advance (next : Section) : Step Validator Unit := fun v =>
  if v.isEnded then .error (.afterEnd next) v
  else if next.rank < v.position.rank then .error (.outOfOrder next v.position) v
  else .ok () { v with position := next }

/-- Grows the index spaces. -/
def extend (f : IndexSpace → IndexSpace) : Step Validator Unit := fun v =>
  .ok () { v with space := f v.space }

/-- What the index spaces say about an index. -/
def lookup {α : Type} (f : IndexSpace → Verdict α) : Step Validator α := fun v =>
  match f v.space with
  | .ok a => .ok a v
  | .error violation => .error violation v

/-- A function referenced outside of bodies has to exist. -/
def declare (func : UInt32) : Step Validator Unit := do
  let _ ← lookup (·.function func)
  modify fun v => { v with refs := v.refs.insert func }

def declareAll (funcs : List UInt32) : Step Validator Unit := fun v =>
  match funcs with
  | [] => .ok () v
  | func :: rest =>
    match declare func v with
    | .ok _ v => declareAll rest v
    | .error violation v => .error violation v

/-- A module has one memory at most. -/
def memory (l : Limits) : Step Validator Unit := do
  l.check .memory
  let v ← get
  if 0 < v.space.memories.size then throw .multipleMemories
  extend (·.addMemory l)

def custom : Step Validator Unit := fun v =>
  if v.isEnded then .error (.afterEnd .finish) v else .ok () v

def imported (desc : ImportDesc) : Step Validator Unit :=
  match desc with
  | .function type => do
    let _ ← lookup (·.type type)
    extend (·.importFunction type)
  | .table d => do
    let t ← d.check
    extend (·.addTable t)
  | .memory l => memory l
  | .global d => do
    let t ← d.check
    extend (·.importGlobal t)

/-- The name of an export, which no other export has. -/
def exportName (name : String) : Step Validator Unit := fun v =>
  if v.exportNames.contains name then .error (.duplicateExportName name) v
  else .ok () { v with exportNames := v.exportNames.insert name }

/-- The target of an export; an exported function counts as referenced. -/
def exportTarget (e : Export) : Step Validator Unit :=
  match e.kind with
  | 0x00 => declare e.index
  | 0x01 => do
    let _ ← lookup (·.table e.index)
  | 0x02 => do
    let _ ← lookup (·.memory e.index)
  | 0x03 => do
    let _ ← lookup (·.global e.index)
  | kind => throw (.malformedExportKind e.name kind)

def start (func : UInt32) : Step Validator Unit := do
  let v ← get
  if v.startSeen then throw .multipleStarts
  advance .start
  modify fun v => { v with startSeen := true }
  let type ← lookup (·.function func)
  if type.isEmpty = false then throw (.startSignature func type)

/-- An active element segment fits its table. -/
def elementMode (type : RefType) (mode : ElementMode) : Step Validator Unit :=
  match mode with
  | .active table => do
    let t ← lookup (·.table table)
    if t.element ≠ type then throw (.elementTableDiffer type t.element)
  | .passive | .declarative => pure ()

/-- Functions make elements of one type only; those named count as referenced. -/
def elementInit (type : RefType) (init : ElementInit) : Step Validator Unit :=
  match init with
  | .functions funcs => do
    if type ≠ .func then throw (.elementNotFuncref type)
    declareAll funcs
  | .expressions => pure ()

def element (s : ElementSegment) : Step Validator Unit := do
  advance .element
  let type ← RefType.check s.tag
  elementMode type s.mode
  elementInit type s.init
  extend (·.addElement type)
  modify fun v => { v with lastElement := some ⟨type, s.mode.isActive, s.init = .expressions⟩ }

def dataCount (count : UInt32) : Step Validator Unit := do
  let v ← get
  if v.space.dataCount.isSome then throw .multipleDataCounts
  advance .dataCount
  extend (·.setDataCount count)

def data (s : DataSegment) : Step Validator Unit := do
  advance .data
  match s.mode with
  | .active memory =>
    let _ ← lookup (·.memory memory)
  | .passive => pure ()
  modify fun v => { v with dataSeen := v.dataSeen + 1, dataOffsetPending := s.mode.isActive }

/-- At the end every function has its body, and there are as many data segments as announced. -/
def finish : Step Validator Unit := do
  advance .finish
  let v ← get
  if v.bodiesSeen ≠ v.space.definedFunctions then
    throw (.bodyCount v.space.definedFunctions v.bodiesSeen)
  match v.space.dataCount with
  | some count => if count.toNat ≠ v.dataSeen then throw (.dataCount count v.dataSeen)
  | none => pure ()

def entry : Entry → Step Validator Unit
  | .header _ => advance .header
  | .custom .. => custom
  | .type d => do
    advance .type
    let t ← d.check
    extend (·.addType t)
  | .imported i => do
    advance .imports
    imported i.desc
  | .function type => do
    advance .function
    let _ ← lookup (·.type type)
    extend (·.addFunction type)
  | .table d => do
    advance .table
    let t ← d.check
    extend (·.addTable t)
  | .memory l => do
    advance .memory
    memory l
  | .exported e => do
    advance .exports
    exportName e.name
    exportTarget e
  | .start func => start func
  | .element s => element s
  | .dataCount count => dataCount count
  | .data s => data s
  | .finish => finish

end Validator

end Wasm
