import Wasm.Binary.Leb128
import Wasm.Violation

/-! # Errors of the binary format

What can stop the decoding of a module: a fault of a read, a byte that the format gives no meaning, a
frame that does not hold together, or the consumer of the module's entries, who may object to one.
-/

namespace Wasm.Binary

/-- Bytes that the format gives no meaning where they stand. -/
inductive Malformation where
  | blockType (index : Int)
  | reservedByte (mnemonic : String) (byte : UInt8)
  | labelCount (count : Nat)
  | functionForm (byte : UInt8)
  | importKind (byte : UInt8)
  | limitsFlag (byte : UInt8)
  | elementKind (byte : UInt8)
  | elementFlags (flags : UInt32)
  | dataFlags (flags : UInt32)
  | tooManyLocals
  | bodySize (unused : Nat)
deriving DecidableEq, Repr

namespace Malformation

def message : Malformation → String
  | blockType index => "malformed block type " ++ toString index
  | reservedByte mnemonic byte =>
    mnemonic ++ " reserved byte must be 0x00, got " ++ Hex.tag byte
  | labelCount count =>
    "br_table with " ++ toString count ++ " labels exceeds the implementation limit"
  | functionForm byte => "expected 0x60 to lead function type, got " ++ Hex.tag byte
  | importKind byte => "malformed import kind " ++ Hex.tag byte
  | limitsFlag byte => "malformed limits flag " ++ Hex.tag byte
  | elementKind byte => "malformed element kind " ++ Hex.tag byte
  | elementFlags flags => "malformed elements segment kind " ++ toString flags
  | dataFlags flags => "malformed data segment kind " ++ toString flags
  | tooManyLocals => "too many locals"
  | bodySize unused =>
    "section size mismatch: " ++ toString unused ++ " bytes after the end of a function body"

end Malformation

inductive DecodeError where
  | read (fault : ReadFault)
  | badMagic
  | unknownVersion (version : UInt32)
  | unknownSection (id : UInt8)
  | sectionOrder (id : UInt8)
  | sectionSize (id : UInt8) (declared : UInt32) (unused : Nat)
  | unknownOpcode (opcode : UInt8)
  | unknownInstruction (lead : UInt8) (sub : UInt32)
  | malformed (what : Malformation)
  | violation (v : Violation)
deriving DecidableEq, Repr

namespace DecodeError

def message : DecodeError → String
  | read fault => "io error: " ++ fault.message
  | badMagic => "magic header not detected"
  | unknownVersion version => "unknown binary version " ++ toString version
  | unknownSection id => "malformed section id " ++ toString id
  | sectionOrder id =>
    "unexpected content after last section: section " ++ toString id ++ " out of order"
  | sectionSize id declared unused =>
    "section size mismatch: section " ++ toString id ++ " declared " ++ toString declared ++
      " bytes, " ++ toString unused ++ " left over"
  | unknownOpcode opcode => "illegal opcode " ++ Hex.tag opcode
  | unknownInstruction lead sub =>
    "unknown instruction: " ++ Hex.tag lead ++ " 0x" ++ Hex.padded 2 sub.toNat
  | malformed what => what.message
  | violation v => v.message

/-- A violation found in a function body names the function; any other error stays as it is. -/
def inFunction (func : Nat) : DecodeError → DecodeError
  | violation v => violation (.inFunction func v)
  | e => e

end DecodeError

/-- Decoding reads from a cursor and may also find bytes without meaning. -/
abbrev Decoder := EStateM DecodeError Cursor

instance : MonadLift Reader Decoder := ⟨EStateM.adaptExcept .read⟩

end Wasm.Binary
