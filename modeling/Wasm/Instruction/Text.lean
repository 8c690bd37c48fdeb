import Wasm.Instruction.Basic
import Wasm.Text.HexFloat

/-! # Instruction text

An instruction is shown by its mnemonic and its immediates. Memory arguments leave out a zero offset,
floating-point constants are exact, and indices are decimal.
-/

namespace Wasm

/-- Numbers in decimal, a blank before each. -/
def spacedIndices (indices : List UInt32) : String :=
  String.join (indices.map fun index => " " ++ toString index)

namespace Plain

/-- The immediates, each with a blank before it. -/
def immediates : Plain → String
  | call i | refFunc i | localGet i | localSet i | localTee i | globalGet i | globalSet i
  | tableGet i | tableSet i | tableGrow i | tableSize i | tableFill i | elemDrop i
  | memoryInit i | dataDrop i => spacedIndices [i]
  | callIndirect type table => " " ++ toString table ++ " (type " ++ toString type ++ ")"
  | refNull tag =>
    match RefType.ofTag? tag with
    | some .func => " func"
    | some .external => " extern"
    | none => " " ++ Hex.tag tag
  | selectTyped tags => " (result" ++ String.join (tags.map fun tag => " " ++ tagName tag) ++ ")"
  | tableInit elem table => spacedIndices [table, elem]
  | tableCopy dst src => spacedIndices [dst, src]
  | load _ arg | store _ arg | vectorMemory _ arg => arg.text
  | i32Const value => " " ++ toString value.toInt
  | i64Const value => " " ++ toString value.toInt
  | f32Const bits => " " ++ Text.FloatFormat.single.text bits.toNat
  | f64Const bits => " " ++ Text.FloatFormat.double.text bits.toNat
  | v128Const bytes => " 0x" ++ Hex.bytes bytes.toList
  | shuffle lanes => spacedIndices (lanes.toList.map (·.toUInt32))
  | vectorLane _ lane => spacedIndices [lane.toUInt32]
  | vectorMemoryLane _ arg lane => arg.text ++ spacedIndices [lane.toUInt32]
  | nop | memorySize | memoryGrow | memoryCopy | memoryFill | numeric _ | vector _ => ""

/-- Equality up to the values of floating-point constants: a NaN agrees with nothing, and the two
zeros agree. -/
def agrees : Plain → Plain → Bool
  | f32Const a, f32Const b => Text.FloatFormat.single.sameValue a.toNat b.toNat
  | f64Const a, f64Const b => Text.FloatFormat.double.sameValue a.toNat b.toNat
  | a, b => a == b

end Plain

namespace Instruction

/-- The immediates, each with a blank before it. -/
def immediates : Instruction → String
  | block type | loop type | if_ type => type.text
  | br label | brIf label => spacedIndices [label]
  | brTable labels default => spacedIndices (labels ++ [default])
  | plain op => op.immediates
  | unreachable | else_ | end_ | return_ | refIsNull | drop | select => ""

def text (i : Instruction) : String := i.mnemonic ++ i.immediates

/-- Equality up to the values of floating-point constants. -/
def agrees : Instruction → Instruction → Bool
  | plain a, plain b => a.agrees b
  | a, b => a == b

end Instruction

end Wasm
