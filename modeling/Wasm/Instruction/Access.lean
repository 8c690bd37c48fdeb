import Wasm.Instruction.Numeric

/-! # Memory accesses

Loads and stores of numbers, whole or in part, with the alignment their width makes natural.
`LoadOp.inOrder` and `StoreOp.inOrder` list them as the binary format numbers them.
-/

namespace Wasm

/-- Where an access goes: an alignment promise, as a power of two, and an offset. -/
structure MemArg where
  align : UInt32
  offset : UInt32
deriving DecidableEq, Repr

inductive LoadOp where
  | whole (t : NumType)
  | narrow32 (bits : Narrow32) (s : Signedness)
  | narrow64 (bits : Narrow64) (s : Signedness)
deriving DecidableEq, Repr

inductive StoreOp where
  | whole (t : NumType)
  | narrow32 (bits : Narrow32)
  | narrow64 (bits : Narrow64)
deriving DecidableEq, Repr

namespace MemArg

/-- The offset unless it is zero, and the alignment in bytes. An alignment beyond 63 is shown as 63. -/
def text (m : MemArg) : String :=
  let align := " align=" ++ toString (1 <<< min m.align.toNat 63)
  if m.offset == 0 then align else " offset=" ++ toString m.offset ++ align

end MemArg

namespace LoadOp

def mnemonic : LoadOp → String
  | whole t => t.name ++ ".load"
  | narrow32 bits s => "i32.load" ++ bits.name ++ "_" ++ s.name
  | narrow64 bits s => "i64.load" ++ bits.name ++ "_" ++ s.name

def result : LoadOp → NumType
  | whole t => t
  | narrow32 .. => .i32
  | narrow64 .. => .i64

/-- The natural alignment, as a power of two. -/
def natural : LoadOp → UInt32
  | whole t => t.widthLog2
  | narrow32 bits _ => bits.widthLog2
  | narrow64 bits _ => bits.widthLog2

def inOrder : List LoadOp :=
  [whole .i32, whole .i64, whole .f32, whole .f64] ++
    (Narrow32.all.flatMap fun bits => Signedness.all.map (narrow32 bits)) ++
    (Narrow64.all.flatMap fun bits => Signedness.all.map (narrow64 bits))

def firstOpcode : Nat := 0x28

def table : Array LoadOp := inOrder.toArray

def ofOpcode? (opcode : UInt8) : Option LoadOp :=
  if firstOpcode ≤ opcode.toNat then table[opcode.toNat - firstOpcode]? else none

end LoadOp

namespace StoreOp

def mnemonic : StoreOp → String
  | whole t => t.name ++ ".store"
  | narrow32 bits => "i32.store" ++ bits.name
  | narrow64 bits => "i64.store" ++ bits.name

def operand : StoreOp → NumType
  | whole t => t
  | narrow32 _ => .i32
  | narrow64 _ => .i64

/-- The natural alignment, as a power of two. -/
def natural : StoreOp → UInt32
  | whole t => t.widthLog2
  | narrow32 bits => bits.widthLog2
  | narrow64 bits => bits.widthLog2

def inOrder : List StoreOp :=
  [whole .i32, whole .i64, whole .f32, whole .f64] ++ Narrow32.all.map narrow32 ++
    Narrow64.all.map narrow64

def firstOpcode : Nat := 0x36

def table : Array StoreOp := inOrder.toArray

def ofOpcode? (opcode : UInt8) : Option StoreOp :=
  if firstOpcode ≤ opcode.toNat then table[opcode.toNat - firstOpcode]? else none

end StoreOp

end Wasm
