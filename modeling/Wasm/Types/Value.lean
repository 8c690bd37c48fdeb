import Wasm.Text.Hex

/-! # Value types

Number, vector and reference types, with the one-byte tags that declare them and the names they are
shown by. A declaration carries its tag as it was read; whether the tag names a type is decided where
the declaration is checked.
-/

namespace Wasm

inductive NumType where
  | i32 | i64 | f32 | f64
deriving DecidableEq, Repr

inductive RefType where
  | func | external
deriving DecidableEq, Repr

inductive ValueType where
  | num (t : NumType)
  | v128
  | ref (t : RefType)
deriving DecidableEq, Repr

namespace NumType

def name : NumType → String
  | i32 => "i32"
  | i64 => "i64"
  | f32 => "f32"
  | f64 => "f64"

/-- The width of a number in bytes, as a power of two. -/
def widthLog2 : NumType → UInt32
  | i32 | f32 => 2
  | i64 | f64 => 3

end NumType

namespace RefType

def name : RefType → String
  | func => "funcref"
  | external => "externref"

def tag : RefType → UInt8
  | func => 0x70
  | external => 0x6f

def ofTag? : UInt8 → Option RefType
  | 0x70 => some func
  | 0x6f => some external
  | _ => none

end RefType

namespace ValueType

@[match_pattern] abbrev i32 : ValueType := num .i32
@[match_pattern] abbrev i64 : ValueType := num .i64
@[match_pattern] abbrev f32 : ValueType := num .f32
@[match_pattern] abbrev f64 : ValueType := num .f64
@[match_pattern] abbrev funcref : ValueType := ref .func
@[match_pattern] abbrev externref : ValueType := ref .external

def name : ValueType → String
  | num t => t.name
  | v128 => "v128"
  | ref t => t.name

def tag : ValueType → UInt8
  | i32 => 0x7f
  | i64 => 0x7e
  | f32 => 0x7d
  | f64 => 0x7c
  | v128 => 0x7b
  | ref t => t.tag

def ofTag? : UInt8 → Option ValueType
  | 0x7f => some i32
  | 0x7e => some i64
  | 0x7d => some f32
  | 0x7c => some f64
  | 0x7b => some v128
  | b => (RefType.ofTag? b).map ref

def isNum : ValueType → Bool
  | num _ => true
  | _ => false

def isVec : ValueType → Bool
  | v128 => true
  | _ => false

def isRef : ValueType → Bool
  | ref _ => true
  | _ => false

@[simp] theorem ofTag?_tag (t : ValueType) : ofTag? t.tag = some t := by
  rcases t with (_ | _ | _ | _) | _ | (_ | _) <;> rfl

end ValueType

/-- A tag by the name of its type, or in hexadecimal when it names none. -/
def tagName (b : UInt8) : String :=
  match ValueType.ofTag? b with
  | some t => t.name
  | none => Hex.tag b

/-- Names with one blank between them. -/
def spaced (names : List String) : String :=
  String.intercalate " " names

/-- One operand: its type, or `unknown` for an operand that only code which is never reached could
have produced. -/
inductive Slot where
  | known (t : ValueType)
  | unknown
deriving DecidableEq, Repr

namespace Slot

def name : Slot → String
  | known t => t.name
  | unknown => "unknown"

def isNum : Slot → Bool
  | known t => t.isNum
  | unknown => true

def isVec : Slot → Bool
  | known t => t.isVec
  | unknown => true

def isRef : Slot → Bool
  | known t => t.isRef
  | unknown => true

end Slot

end Wasm
