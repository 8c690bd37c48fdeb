import Wasm.Binary.DecodeError

/-! # Layout of instructions

An opcode fixes how the immediates of its instruction are laid out. There are few layouts, so an
instruction is decoded in two steps: its opcode gives a layout, and the layout is read.
-/

namespace Wasm.Binary

/-- How the immediates after an opcode are written. -/
inductive Layout where
  | bare (i : Instruction)
  | blockType (make : BlockType → Instruction)
  | index (make : UInt32 → Instruction)
  | twoIndices (make : UInt32 → UInt32 → Instruction)
  | labels
  | tag (make : UInt8 → Instruction)
  | tags
  | memArg (make : MemArg → Instruction)
  | memArgLane (make : MemArg → UInt8 → Instruction)
  | lane (make : UInt8 → Instruction)
  /-- `count` bytes that must be zero. -/
  | reserved (count : Nat) (i : Instruction)
  /-- An index and then a byte that must be zero. -/
  | indexReserved (make : UInt32 → Instruction)
  | int32
  | int64
  | float32
  | float64
  | sixteen (make : Vector UInt8 16 → Instruction)

namespace Layout

/-- The byte before the secondary opcodes of truncations, bulk memory and tables. -/
def extendedLead : UInt8 := 0xfc

/-- The byte before the secondary opcodes of vector operations. -/
def vectorLead : UInt8 := 0xfd

/-- The layout after an opcode of one byte. -/
def ofOpcode? (opcode : UInt8) : Option Layout :=
  match opcode with
  | 0x00 => some (.bare .unreachable)
  | 0x01 => some (.bare (.plain .nop))
  | 0x02 => some (.blockType .block)
  | 0x03 => some (.blockType .loop)
  | 0x04 => some (.blockType .if_)
  | 0x05 => some (.bare .else_)
  | 0x0b => some (.bare .end_)
  | 0x0c => some (.index .br)
  | 0x0d => some (.index .brIf)
  | 0x0e => some .labels
  | 0x0f => some (.bare .return_)
  | 0x10 => some (.index fun func => .plain (.call func))
  | 0x11 => some (.twoIndices fun type table => .plain (.callIndirect type table))
  | 0x1a => some (.bare .drop)
  | 0x1b => some (.bare .select)
  | 0x1c => some .tags
  | 0x20 => some (.index fun i => .plain (.localGet i))
  | 0x21 => some (.index fun i => .plain (.localSet i))
  | 0x22 => some (.index fun i => .plain (.localTee i))
  | 0x23 => some (.index fun i => .plain (.globalGet i))
  | 0x24 => some (.index fun i => .plain (.globalSet i))
  | 0x25 => some (.index fun i => .plain (.tableGet i))
  | 0x26 => some (.index fun i => .plain (.tableSet i))
  | 0x3f => some (.reserved 1 (.plain .memorySize))
  | 0x40 => some (.reserved 1 (.plain .memoryGrow))
  | 0x41 => some .int32
  | 0x42 => some .int64
  | 0x43 => some .float32
  | 0x44 => some .float64
  | 0xd0 => some (.tag fun tag => .plain (.refNull tag))
  | 0xd1 => some (.bare .refIsNull)
  | 0xd2 => some (.index fun func => .plain (.refFunc func))
  | _ =>
    match LoadOp.ofOpcode? opcode, StoreOp.ofOpcode? opcode, NumericOp.ofOpcode? opcode with
    | some op, _, _ => some (.memArg fun arg => .plain (.load op arg))
    | _, some op, _ => some (.memArg fun arg => .plain (.store op arg))
    | _, _, some op => some (.bare (.plain (.numeric op)))
    | none, none, none => none

/-- The layout after `extendedLead` and a secondary opcode. -/
def ofExtended? (sub : UInt32) : Option Layout :=
  match sub with
  | 0x08 => some (.indexReserved fun data => .plain (.memoryInit data))
  | 0x09 => some (.index fun data => .plain (.dataDrop data))
  | 0x0a => some (.reserved 2 (.plain .memoryCopy))
  | 0x0b => some (.reserved 1 (.plain .memoryFill))
  | 0x0c => some (.twoIndices fun elem table => .plain (.tableInit elem table))
  | 0x0d => some (.index fun elem => .plain (.elemDrop elem))
  | 0x0e => some (.twoIndices fun dst src => .plain (.tableCopy dst src))
  | 0x0f => some (.index fun table => .plain (.tableGrow table))
  | 0x10 => some (.index fun table => .plain (.tableSize table))
  | 0x11 => some (.index fun table => .plain (.tableFill table))
  | _ => (NumericOp.ofSaturatingOpcode? sub).map fun op => .bare (.plain (.numeric op))

/-- The layout after `vectorLead` and a secondary opcode: it follows from the operation's signature,
but for the two operations that carry sixteen bytes. -/
def ofVector? (sub : UInt32) : Option Layout :=
  if sub = VectorOp.constOpcode then some (.sixteen fun bytes => .plain (.v128Const bytes))
  else if sub = VectorOp.shuffleOpcode then some (.sixteen fun lanes => .plain (.shuffle lanes))
  else
    (VectorOp.signature? sub).map fun
      | .fixed .. => .bare (.plain (.vector sub))
      | .extractLane .. | .replaceLane .. => .lane fun lane => .plain (.vectorLane sub lane)
      | .load _ | .store _ => .memArg fun arg => .plain (.vectorMemory sub arg)
      | .loadLane .. | .storeLane .. =>
        .memArgLane fun arg lane => .plain (.vectorMemoryLane sub arg lane)

end Layout

end Wasm.Binary
