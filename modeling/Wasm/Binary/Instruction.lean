import Wasm.Binary.Layout

/-! # Decoding instructions

One instruction is its opcode, of one byte or of a lead byte and a secondary opcode, and then its
immediates as the opcode's layout says.
-/

namespace Wasm.Binary

namespace Decoder

/-- `count` entries put, last first, onto those read before. -/
def repeatedOnto {α : Type} (entry : Decoder α) (count : Nat) (before : List α) :
    Decoder (List α) := fun c =>
  match count with
  | 0 => .ok before.reverse c
  | count + 1 =>
    match entry c with
    | .ok first c => repeatedOnto entry count (first :: before) c
    | .error e c => .error e c

/-- `count` entries, one after the other. -/
def repeated {α : Type} (entry : Decoder α) (count : Nat) : Decoder (List α) :=
  repeatedOnto entry count []

def memArg : Decoder MemArg := do
  let align ← Reader.u32
  let offset ← Reader.u32
  pure ⟨align, offset⟩

/-- A block type: a mark for none, a value type's tag, which reads as a negative number of one byte,
or a type index as a signed number of 33 bits. -/
def blockType : Decoder BlockType := do
  let b ← Reader.byte
  if b = 0x40 then pure .empty
  else if b &&& 0xc0 = 0x40 then pure (.value b)
  else
    let index ← Reader.signedAfter 33 b
    if index < 0 then throw (.malformed (.blockType index))
    else pure (.indexed index.toNat.toUInt32)

/-- `count` bytes that must be zero; a fault names the instruction they belong to. -/
def reserved (mnemonic : String) : Nat → Decoder Unit
  | 0 => pure ()
  | count + 1 => do
    let b ← Reader.byte
    if b = 0x00 then reserved mnemonic count
    else throw (.malformed (.reservedByte mnemonic b))

/-- The most labels a branch table may have, its default apart. -/
def maxLabels : Nat := 65536

def labels : Decoder Instruction := do
  let count ← Reader.count
  if maxLabels < count then throw (.malformed (.labelCount count))
  else
    let labels ← repeated Reader.u32 count
    let default ← Reader.u32
    pure (.brTable labels default)

/-- The immediates of one layout. -/
def layout : Layout → Decoder Instruction
  | .bare i => pure i
  | .blockType make => make <$> blockType
  | .index make => do
    let index ← Reader.u32
    pure (make index)
  | .twoIndices make => do
    let first ← Reader.u32
    let second ← Reader.u32
    pure (make first second)
  | .labels => labels
  | .tag make => do
    let tag ← Reader.byte
    pure (make tag)
  | .tags => do
    let count ← Reader.count
    let tags ← Reader.take count
    pure (.plain (.selectTyped tags))
  | .memArg make => make <$> memArg
  | .memArgLane make => do
    let arg ← memArg
    let lane ← Reader.byte
    pure (make arg lane)
  | .lane make => do
    let lane ← Reader.byte
    pure (make lane)
  | .reserved count i => do
    reserved i.mnemonic count
    pure i
  | .indexReserved make => do
    let index ← Reader.u32
    reserved (make index).mnemonic 1
    pure (make index)
  | .int32 => do
    let value ← Reader.s32
    pure (.plain (.i32Const value))
  | .int64 => do
    let value ← Reader.s64
    pure (.plain (.i64Const value))
  | .float32 => do
    let bits ← Reader.word32
    pure (.plain (.f32Const bits))
  | .float64 => do
    let bits ← Reader.word64
    pure (.plain (.f64Const bits))
  | .sixteen make => do
    let bytes ← Reader.vector 16
    pure (make bytes)

/-- The layout that a first byte calls for, reading a secondary opcode where the byte leads one. -/
def layoutAfter (opcode : UInt8) : Decoder Layout :=
  if opcode = Layout.extendedLead then do
    let sub ← Reader.u32
    match Layout.ofExtended? sub with
    | some l => pure l
    | none => throw (.unknownInstruction opcode sub)
  else if opcode = Layout.vectorLead then do
    let sub ← Reader.u32
    match Layout.ofVector? sub with
    | some l => pure l
    | none => throw (.unknownInstruction opcode sub)
  else
    match Layout.ofOpcode? opcode with
    | some l => pure l
    | none => throw (.unknownOpcode opcode)

/-- What follows the first byte of an instruction. -/
def instructionAfter (opcode : UInt8) : Decoder Instruction := do
  let l ← layoutAfter opcode
  layout l

/-- One instruction with its immediates. -/
def instruction : Decoder Instruction := do
  let opcode ← Reader.byte
  instructionAfter opcode

end Decoder

end Wasm.Binary
