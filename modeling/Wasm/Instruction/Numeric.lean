import Wasm.Types.Declared

/-! # Numeric operations

The operations on numbers that carry no immediates: tests, comparisons, arithmetic and conversions.
`NumericOp.inOrder` and `NumericOp.saturating` list them as the binary format numbers them, so an
opcode is a place in one of those lists.
-/

namespace Wasm

/-- The two widths of integers and of floating-point numbers. -/
inductive Width where
  | w32 | w64
deriving DecidableEq, Repr

inductive Signedness where
  | signed | unsigned
deriving DecidableEq, Repr

/-- A part of a 32-bit integer. -/
inductive Narrow32 where
  | bits8 | bits16
deriving DecidableEq, Repr

/-- A part of a 64-bit integer. -/
inductive Narrow64 where
  | bits8 | bits16 | bits32
deriving DecidableEq, Repr

namespace Width

def int : Width → NumType
  | w32 => .i32
  | w64 => .i64

def float : Width → NumType
  | w32 => .f32
  | w64 => .f64

def all : List Width := [w32, w64]

end Width

namespace Signedness

def name : Signedness → String
  | signed => "s"
  | unsigned => "u"

def all : List Signedness := [signed, unsigned]

end Signedness

namespace Narrow32

def name : Narrow32 → String
  | bits8 => "8"
  | bits16 => "16"

/-- The width in bytes, as a power of two. -/
def widthLog2 : Narrow32 → UInt32
  | bits8 => 0
  | bits16 => 1

def all : List Narrow32 := [bits8, bits16]

end Narrow32

namespace Narrow64

def name : Narrow64 → String
  | bits8 => "8"
  | bits16 => "16"
  | bits32 => "32"

/-- The width in bytes, as a power of two. -/
def widthLog2 : Narrow64 → UInt32
  | bits8 => 0
  | bits16 => 1
  | bits32 => 2

def all : List Narrow64 := [bits8, bits16, bits32]

end Narrow64

inductive IntCompare where
  | eq | ne | lt (s : Signedness) | gt (s : Signedness) | le (s : Signedness) | ge (s : Signedness)
deriving DecidableEq, Repr

inductive FloatCompare where
  | eq | ne | lt | gt | le | ge
deriving DecidableEq, Repr

inductive IntUnary where
  | clz | ctz | popcnt
deriving DecidableEq, Repr

inductive IntBinary where
  | add | sub | mul | div (s : Signedness) | rem (s : Signedness) | and | or | xor | shl
  | shr (s : Signedness) | rotl | rotr
deriving DecidableEq, Repr

inductive FloatUnary where
  | abs | neg | ceil | floor | trunc | nearest | sqrt
deriving DecidableEq, Repr

inductive FloatBinary where
  | add | sub | mul | div | min | max | copysign
deriving DecidableEq, Repr

/-- Operations that take one number to a number of another type. -/
inductive Conversion where
  | wrap
  | trunc (target source : Width) (s : Signedness)
  | truncSat (target source : Width) (s : Signedness)
  | extend (s : Signedness)
  | convert (target source : Width) (s : Signedness)
  | demote
  | promote
  | reinterpretFloat (w : Width)
  | reinterpretInt (w : Width)
deriving DecidableEq, Repr

inductive NumericOp where
  | eqz (w : Width)
  | intCompare (w : Width) (op : IntCompare)
  | floatCompare (w : Width) (op : FloatCompare)
  | intUnary (w : Width) (op : IntUnary)
  | intBinary (w : Width) (op : IntBinary)
  | floatUnary (w : Width) (op : FloatUnary)
  | floatBinary (w : Width) (op : FloatBinary)
  | conversion (c : Conversion)
  | signExtend32 (bits : Narrow32)
  | signExtend64 (bits : Narrow64)
deriving DecidableEq, Repr

namespace IntCompare

def name : IntCompare → String
  | eq => "eq"
  | ne => "ne"
  | lt s => "lt_" ++ s.name
  | gt s => "gt_" ++ s.name
  | le s => "le_" ++ s.name
  | ge s => "ge_" ++ s.name

def all : List IntCompare :=
  [eq, ne] ++ Signedness.all.map lt ++ Signedness.all.map gt ++ Signedness.all.map le ++
    Signedness.all.map ge

end IntCompare

namespace FloatCompare

def name : FloatCompare → String
  | eq => "eq"
  | ne => "ne"
  | lt => "lt"
  | gt => "gt"
  | le => "le"
  | ge => "ge"

def all : List FloatCompare := [eq, ne, lt, gt, le, ge]

end FloatCompare

namespace IntUnary

def name : IntUnary → String
  | clz => "clz"
  | ctz => "ctz"
  | popcnt => "popcnt"

def all : List IntUnary := [clz, ctz, popcnt]

end IntUnary

namespace IntBinary

def name : IntBinary → String
  | add => "add"
  | sub => "sub"
  | mul => "mul"
  | div s => "div_" ++ s.name
  | rem s => "rem_" ++ s.name
  | and => "and"
  | or => "or"
  | xor => "xor"
  | shl => "shl"
  | shr s => "shr_" ++ s.name
  | rotl => "rotl"
  | rotr => "rotr"

def all : List IntBinary :=
  [add, sub, mul] ++ Signedness.all.map div ++ Signedness.all.map rem ++ [and, or, xor, shl] ++
    Signedness.all.map shr ++ [rotl, rotr]

end IntBinary

namespace FloatUnary

def name : FloatUnary → String
  | abs => "abs"
  | neg => "neg"
  | ceil => "ceil"
  | floor => "floor"
  | trunc => "trunc"
  | nearest => "nearest"
  | sqrt => "sqrt"

def all : List FloatUnary := [abs, neg, ceil, floor, trunc, nearest, sqrt]

end FloatUnary

namespace FloatBinary

def name : FloatBinary → String
  | add => "add"
  | sub => "sub"
  | mul => "mul"
  | div => "div"
  | min => "min"
  | max => "max"
  | copysign => "copysign"

def all : List FloatBinary := [add, sub, mul, div, min, max, copysign]

end FloatBinary

namespace Conversion

/-- The type of the operand. -/
def operand : Conversion → NumType
  | wrap => .i64
  | trunc _ source _ | truncSat _ source _ => source.float
  | extend _ => .i32
  | convert _ source _ => source.int
  | demote => .f64
  | promote => .f32
  | reinterpretFloat w => w.float
  | reinterpretInt w => w.int

/-- The type of the result. -/
def result : Conversion → NumType
  | wrap => .i32
  | trunc target _ _ | truncSat target _ _ => target.int
  | extend _ => .i64
  | convert target _ _ => target.float
  | demote => .f32
  | promote => .f64
  | reinterpretFloat w => w.int
  | reinterpretInt w => w.float

/-- What is done, without the types. -/
def verb : Conversion → String
  | wrap => "wrap"
  | trunc .. => "trunc"
  | truncSat .. => "trunc_sat"
  | extend _ => "extend"
  | convert .. => "convert"
  | demote => "demote"
  | promote => "promote"
  | reinterpretFloat _ | reinterpretInt _ => "reinterpret"

def signedness? : Conversion → Option Signedness
  | trunc _ _ s | truncSat _ _ s | extend s | convert _ _ s => some s
  | _ => none

def mnemonic (c : Conversion) : String :=
  let stem := c.result.name ++ "." ++ c.verb ++ "_" ++ c.operand.name
  match c.signedness? with
  | some s => stem ++ "_" ++ s.name
  | none => stem

/-- For each source width a signed and an unsigned variant. -/
def family (make : Width → Signedness → Conversion) : List Conversion :=
  Width.all.flatMap fun source => Signedness.all.map (make source)

/-- The conversions as numbered by the binary format. -/
def inOrder : List Conversion :=
  [wrap] ++ family (trunc .w32) ++ Signedness.all.map extend ++ family (trunc .w64) ++
    family (convert .w32) ++ [demote] ++ family (convert .w64) ++ [promote] ++
    Width.all.map reinterpretFloat ++ Width.all.map reinterpretInt

end Conversion

namespace NumericOp

def mnemonic : NumericOp → String
  | eqz w => w.int.name ++ ".eqz"
  | intCompare w op => w.int.name ++ "." ++ op.name
  | floatCompare w op => w.float.name ++ "." ++ op.name
  | intUnary w op => w.int.name ++ "." ++ op.name
  | intBinary w op => w.int.name ++ "." ++ op.name
  | floatUnary w op => w.float.name ++ "." ++ op.name
  | floatBinary w op => w.float.name ++ "." ++ op.name
  | conversion c => c.mnemonic
  | signExtend32 bits => "i32.extend" ++ bits.name ++ "_s"
  | signExtend64 bits => "i64.extend" ++ bits.name ++ "_s"

/-- The operands taken and the one result given. -/
def signature : NumericOp → FuncType
  | eqz w => ⟨[.num w.int], [.i32]⟩
  | intCompare w _ => ⟨[.num w.int, .num w.int], [.i32]⟩
  | floatCompare w _ => ⟨[.num w.float, .num w.float], [.i32]⟩
  | intUnary w _ => ⟨[.num w.int], [.num w.int]⟩
  | intBinary w _ => ⟨[.num w.int, .num w.int], [.num w.int]⟩
  | floatUnary w _ => ⟨[.num w.float], [.num w.float]⟩
  | floatBinary w _ => ⟨[.num w.float, .num w.float], [.num w.float]⟩
  | conversion c => ⟨[.num c.operand], [.num c.result]⟩
  | signExtend32 _ => ⟨[.i32], [.i32]⟩
  | signExtend64 _ => ⟨[.i64], [.i64]⟩

/-- The operations with an opcode of one byte, in the order of their opcodes. -/
def inOrder : List NumericOp :=
  (Width.all.flatMap fun w => eqz w :: IntCompare.all.map (intCompare w)) ++
  (Width.all.flatMap fun w => FloatCompare.all.map (floatCompare w)) ++
  (Width.all.flatMap fun w => IntUnary.all.map (intUnary w) ++ IntBinary.all.map (intBinary w)) ++
  (Width.all.flatMap fun w => FloatUnary.all.map (floatUnary w) ++ FloatBinary.all.map (floatBinary w)) ++
  Conversion.inOrder.map conversion ++ Narrow32.all.map signExtend32 ++ Narrow64.all.map signExtend64

/-- The saturating truncations, in the order of their secondary opcodes. -/
def saturating : List NumericOp :=
  Width.all.flatMap fun target => (Conversion.family (Conversion.truncSat target)).map conversion

/-- The opcode of the first operation of `inOrder`. -/
def firstOpcode : Nat := 0x45

def table : Array NumericOp := inOrder.toArray

def saturatingTable : Array NumericOp := saturating.toArray

/-- The operation with a one-byte opcode. -/
def ofOpcode? (opcode : UInt8) : Option NumericOp :=
  if firstOpcode ≤ opcode.toNat then table[opcode.toNat - firstOpcode]? else none

/-- The saturating truncation with a secondary opcode. -/
def ofSaturatingOpcode? (opcode : UInt32) : Option NumericOp := saturatingTable[opcode.toNat]?

end NumericOp

end Wasm
