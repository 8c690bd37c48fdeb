import Wasm.Typing.Scope

/-! # Signatures of plain instructions

A plain instruction takes and gives a fixed list of operands, once its immediates are legal in the scope
it stands in: indices in range, alignment and lanes within bounds, globals mutable where they are set,
table types fitting. The first rule broken is reported, before any operand is looked at.
-/

namespace Wasm

namespace Scope

variable (Γ : Scope)

/-- Accesses go to the memory at index zero, which must exist. -/
def checkMemory : Verdict Unit := do
  let _ ← Γ.space.memory 0
  pure ()

/-- An access with legal memory and alignment. -/
def checkAccess (arg : MemArg) (natural : UInt32) : Verdict Unit := do
  Γ.checkMemory
  arg.checkAlignment natural

/-- What the tables at an index hold. -/
def tableElement (table : UInt32) : Verdict RefType := do
  let t ← Γ.space.table table
  pure t.element

end Scope

/-- A lane number is below the number of lanes. -/
def checkLane (lane lanes : UInt8) : Verdict Unit :=
  if lane < lanes then .ok () else .error (.laneIndex lane lanes)

/-- The first lane number out of bounds is reported. -/
def checkLanes (lanes : UInt8) : List UInt8 → Verdict Unit
  | [] => .ok ()
  | lane :: rest => do
    checkLane lane lanes
    checkLanes lanes rest

/-- Shuffling chooses among the lanes of two vectors. -/
def shuffleLanes : UInt8 := 32

namespace Scope

variable (Γ : Scope)

def signature : Plain → Verdict FuncType
  | .nop => pure ⟨[], []⟩
  | .call func => Γ.space.function func
  | .callIndirect type table => do
    let element ← Γ.tableElement table
    if element ≠ .func then throw (.tableNotFuncref table element)
    let t ← Γ.space.type type
    pure ⟨t.params ++ [.i32], t.results⟩
  | .refNull tag => do
    let t ← RefType.check tag
    pure ⟨[], [.ref t]⟩
  | .refFunc func => do
    Γ.checkReference func
    pure ⟨[], [.funcref]⟩
  | .selectTyped tags =>
    match tags with
    | [tag] => do
      let t ← ValueType.check tag
      pure ⟨[t, t, .i32], [t]⟩
    | _ => throw (.selectArity tags.length)
  | .localGet index => do
    let t ← Γ.localType index
    pure ⟨[], [t]⟩
  | .localSet index => do
    let t ← Γ.localType index
    pure ⟨[t], []⟩
  | .localTee index => do
    let t ← Γ.localType index
    pure ⟨[t], [t]⟩
  | .globalGet index => do
    let g ← Γ.global index
    pure ⟨[], [g.value]⟩
  | .globalSet index => do
    let g ← Γ.global index
    if g.isMutable = false then throw (.immutableGlobal index)
    pure ⟨[g.value], []⟩
  | .tableGet table => do
    let t ← Γ.tableElement table
    pure ⟨[.i32], [.ref t]⟩
  | .tableSet table => do
    let t ← Γ.tableElement table
    pure ⟨[.i32, .ref t], []⟩
  | .tableSize table => do
    let _ ← Γ.tableElement table
    pure ⟨[], [.i32]⟩
  | .tableGrow table => do
    let t ← Γ.tableElement table
    pure ⟨[.ref t, .i32], [.i32]⟩
  | .tableFill table => do
    let t ← Γ.tableElement table
    pure ⟨[.i32, .ref t, .i32], []⟩
  | .tableCopy dst src => do
    let d ← Γ.tableElement dst
    let s ← Γ.tableElement src
    if d ≠ s then throw (.tablesDiffer d s)
    pure ⟨[.i32, .i32, .i32], []⟩
  | .tableInit elem table => do
    let t ← Γ.tableElement table
    let e ← Γ.space.element elem
    if t ≠ e then throw (.elementTableDiffer e t)
    pure ⟨[.i32, .i32, .i32], []⟩
  | .elemDrop elem => do
    let _ ← Γ.space.element elem
    pure ⟨[], []⟩
  | .load op arg => do
    Γ.checkAccess arg op.natural
    pure ⟨[.i32], [.num op.result]⟩
  | .store op arg => do
    Γ.checkAccess arg op.natural
    pure ⟨[.i32, .num op.operand], []⟩
  | .memorySize => do
    Γ.checkMemory
    pure ⟨[], [.i32]⟩
  | .memoryGrow => do
    Γ.checkMemory
    pure ⟨[.i32], [.i32]⟩
  | .memoryFill | .memoryCopy => do
    Γ.checkMemory
    pure ⟨[.i32, .i32, .i32], []⟩
  | .memoryInit data => do
    Γ.checkMemory
    Γ.space.checkData data
    pure ⟨[.i32, .i32, .i32], []⟩
  | .dataDrop data => do
    Γ.space.checkData data
    pure ⟨[], []⟩
  | .i32Const _ => pure ⟨[], [.i32]⟩
  | .i64Const _ => pure ⟨[], [.i64]⟩
  | .f32Const _ => pure ⟨[], [.f32]⟩
  | .f64Const _ => pure ⟨[], [.f64]⟩
  | .numeric op => pure op.signature
  | .v128Const _ => pure ⟨[], [.v128]⟩
  | .shuffle lanes => do
    checkLanes shuffleLanes lanes.toList
    pure ⟨[.v128, .v128], [.v128]⟩
  | .vector sub =>
    if sub = VectorOp.constOpcode ∨ sub = VectorOp.shuffleOpcode then throw (.illegalVector sub)
    else
      match VectorOp.signature? sub with
      | some (.fixed params results) => pure ⟨params, results⟩
      | _ => throw (.illegalVector sub)
  | .vectorLane sub lane =>
    match VectorOp.signature? sub with
    | some (.extractLane lanes result) => do
      checkLane lane lanes
      pure ⟨[.v128], [result]⟩
    | some (.replaceLane lanes operand) => do
      checkLane lane lanes
      pure ⟨[.v128, operand], [.v128]⟩
    | _ => throw (.illegalVector sub)
  | .vectorMemory sub arg =>
    match VectorOp.signature? sub with
    | some (.load natural) => do
      Γ.checkAccess arg natural
      pure ⟨[.i32], [.v128]⟩
    | some (.store natural) => do
      Γ.checkAccess arg natural
      pure ⟨[.i32, .v128], []⟩
    | _ => throw (.illegalVector sub)
  | .vectorMemoryLane sub arg lane =>
    match VectorOp.signature? sub with
    | some (.loadLane natural lanes) => do
      Γ.checkAccess arg natural
      checkLane lane lanes
      pure ⟨[.i32, .v128], [.v128]⟩
    | some (.storeLane natural lanes) => do
      Γ.checkAccess arg natural
      checkLane lane lanes
      pure ⟨[.i32, .v128], []⟩
    | _ => throw (.illegalVector sub)

/-- The signature that a block type means. -/
def blockSignature : BlockType → Verdict FuncType
  | .empty => pure ⟨[], []⟩
  | .value tag => do
    let t ← ValueType.check tag
    pure ⟨[], [t]⟩
  | .indexed type => Γ.space.type type

end Scope

end Wasm
