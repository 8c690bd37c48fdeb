import Wasm.Instruction.Access
import Wasm.Instruction.Vector

/-! # Instructions

One value an instruction, with its immediates as a producer read them: type immediates stay raw tags.

An instruction is *plain* when, its immediates being legal where it stands, it takes and gives a fixed
list of operands. The others open or close a block, branch, or take operands whose type only the
operand stack can tell. Floating-point constants are kept as bits.
-/

namespace Wasm

/-- The type of a block. -/
inductive BlockType where
  | empty
  /-- No parameters and one result, as a raw tag. -/
  | value (tag : UInt8)
  /-- The signature at an index of the type space. -/
  | indexed (type : UInt32)
deriving DecidableEq, Repr

/-- Instructions with a fixed signature. -/
inductive Plain where
  | nop
  | call (func : UInt32)
  | callIndirect (type table : UInt32)
  | refNull (tag : UInt8)
  | refFunc (func : UInt32)
  | selectTyped (tags : List UInt8)
  | localGet (index : UInt32)
  | localSet (index : UInt32)
  | localTee (index : UInt32)
  | globalGet (index : UInt32)
  | globalSet (index : UInt32)
  | tableGet (table : UInt32)
  | tableSet (table : UInt32)
  | tableInit (elem table : UInt32)
  | elemDrop (elem : UInt32)
  | tableCopy (dst src : UInt32)
  | tableGrow (table : UInt32)
  | tableSize (table : UInt32)
  | tableFill (table : UInt32)
  | load (op : LoadOp) (arg : MemArg)
  | store (op : StoreOp) (arg : MemArg)
  | memorySize
  | memoryGrow
  | memoryInit (data : UInt32)
  | dataDrop (data : UInt32)
  | memoryCopy
  | memoryFill
  | i32Const (value : Int32)
  | i64Const (value : Int64)
  | f32Const (bits : UInt32)
  | f64Const (bits : UInt64)
  | numeric (op : NumericOp)
  | v128Const (bytes : Vector UInt8 16)
  | shuffle (lanes : Vector UInt8 16)
  | vectorMemory (sub : UInt32) (arg : MemArg)
  | vectorMemoryLane (sub : UInt32) (arg : MemArg) (lane : UInt8)
  | vectorLane (sub : UInt32) (lane : UInt8)
  | vector (sub : UInt32)
deriving DecidableEq, Repr

inductive Instruction where
  | unreachable
  | block (type : BlockType)
  | loop (type : BlockType)
  | if_ (type : BlockType)
  | else_
  | end_
  | br (label : UInt32)
  | brIf (label : UInt32)
  | brTable (labels : List UInt32) (default : UInt32)
  | return_
  | refIsNull
  | drop
  | select
  | plain (op : Plain)
deriving DecidableEq, Repr

instance : Coe Plain Instruction := ⟨.plain⟩

/-- An instruction sequence that ends with the `end_` closing it. -/
abbrev Expr := Array Instruction

namespace BlockType

def text : BlockType → String
  | empty => ""
  | value tag => " (result " ++ tagName tag ++ ")"
  | indexed type => " (type " ++ toString type ++ ")"

end BlockType

namespace Plain

def mnemonic : Plain → String
  | nop => "nop"
  | call _ => "call"
  | callIndirect .. => "call_indirect"
  | refNull _ => "ref.null"
  | refFunc _ => "ref.func"
  | selectTyped _ => "select"
  | localGet _ => "local.get"
  | localSet _ => "local.set"
  | localTee _ => "local.tee"
  | globalGet _ => "global.get"
  | globalSet _ => "global.set"
  | tableGet _ => "table.get"
  | tableSet _ => "table.set"
  | tableInit .. => "table.init"
  | elemDrop _ => "elem.drop"
  | tableCopy .. => "table.copy"
  | tableGrow _ => "table.grow"
  | tableSize _ => "table.size"
  | tableFill _ => "table.fill"
  | load op _ => op.mnemonic
  | store op _ => op.mnemonic
  | memorySize => "memory.size"
  | memoryGrow => "memory.grow"
  | memoryInit _ => "memory.init"
  | dataDrop _ => "data.drop"
  | memoryCopy => "memory.copy"
  | memoryFill => "memory.fill"
  | i32Const _ => "i32.const"
  | i64Const _ => "i64.const"
  | f32Const _ => "f32.const"
  | f64Const _ => "f64.const"
  | numeric op => op.mnemonic
  | v128Const _ => "v128.const"
  | shuffle _ => "i8x16.shuffle"
  | vectorMemory sub _ | vectorMemoryLane sub .. | vectorLane sub _ | vector sub =>
    (VectorOp.mnemonic? sub).getD "<unknown simd>"

/-- Whether a constant expression may hold the instruction. -/
def isConstant : Plain → Bool
  | i32Const _ | i64Const _ | f32Const _ | f64Const _ | v128Const _ => true
  | refNull _ | refFunc _ | globalGet _ => true
  | _ => false

end Plain

namespace Instruction

def mnemonic : Instruction → String
  | unreachable => "unreachable"
  | block _ => "block"
  | loop _ => "loop"
  | if_ _ => "if"
  | else_ => "else"
  | end_ => "end"
  | br _ => "br"
  | brIf _ => "br_if"
  | brTable .. => "br_table"
  | return_ => "return"
  | refIsNull => "ref.is_null"
  | drop => "drop"
  | select => "select"
  | plain op => op.mnemonic

/-- Whether a constant expression may hold the instruction, its closing mark included. -/
def isConstant : Instruction → Bool
  | end_ => true
  | plain op => op.isConstant
  | _ => false

/-- The vector operation with a name, as an instruction without immediates. -/
def ofVectorName? (name : String) : Option Instruction :=
  (VectorOp.opcode? name).map fun sub => plain (.vector sub)

end Instruction

end Wasm
