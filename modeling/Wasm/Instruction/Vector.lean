import Wasm.Types.Declared

/-! # Vector operations

Names and operand signatures of the vector operations, by the secondary opcode that follows the
vector lead byte. One table holds both, as runs of consecutive opcodes; an opcode between two runs is
not assigned.
-/

namespace Wasm

/-- How a vector operation uses its operands and immediates. -/
inductive VectorSignature where
  | fixed (params results : List ValueType)
  /-- From a vector to one of its `lanes` lanes. -/
  | extractLane (lanes : UInt8) (result : ValueType)
  /-- From a vector and a new value for one of its `lanes` lanes to a vector. -/
  | replaceLane (lanes : UInt8) (operand : ValueType)
  | load (natural : UInt32)
  | store (natural : UInt32)
  /-- From an address and a vector to the vector with one lane loaded. -/
  | loadLane (natural : UInt32) (lanes : UInt8)
  /-- From an address and a vector, storing one lane. -/
  | storeLane (natural : UInt32) (lanes : UInt8)
deriving DecidableEq, Repr

structure VectorOp where
  mnemonic : String
  signature : VectorSignature
deriving DecidableEq, Repr

namespace VectorOp

def unary : VectorSignature := .fixed [.v128] [.v128]
def binary : VectorSignature := .fixed [.v128, .v128] [.v128]
def ternary : VectorSignature := .fixed [.v128, .v128, .v128] [.v128]
def test : VectorSignature := .fixed [.v128] [.i32]
def shift : VectorSignature := .fixed [.v128, .i32] [.v128]
def splat (operand : ValueType) : VectorSignature := .fixed [operand] [.v128]

/-- Operations that share a signature. -/
def same (signature : VectorSignature) (mnemonics : List String) : List VectorOp :=
  mnemonics.map fun mnemonic => ⟨mnemonic, signature⟩

/-- The assigned operations, as runs of consecutive opcodes with the opcode each run starts at. -/
def runs : List (Nat × List VectorOp) := [
  (0x00,
    same (.load 4) ["v128.load"] ++
    same (.load 3) ["v128.load8x8_s", "v128.load8x8_u", "v128.load16x4_s", "v128.load16x4_u",
        "v128.load32x2_s", "v128.load32x2_u"] ++
    same (.load 0) ["v128.load8_splat"] ++
    same (.load 1) ["v128.load16_splat"] ++
    same (.load 2) ["v128.load32_splat"] ++
    same (.load 3) ["v128.load64_splat"] ++
    same (.store 4) ["v128.store"] ++
    same (.fixed [] [.v128]) ["v128.const"] ++
    same binary ["i8x16.shuffle", "i8x16.swizzle"] ++
    same (splat .i32) ["i8x16.splat", "i16x8.splat", "i32x4.splat"] ++
    same (splat .i64) ["i64x2.splat"] ++
    same (splat .f32) ["f32x4.splat"] ++
    same (splat .f64) ["f64x2.splat"] ++
    same (.extractLane 16 .i32) ["i8x16.extract_lane_s", "i8x16.extract_lane_u"] ++
    same (.replaceLane 16 .i32) ["i8x16.replace_lane"] ++
    same (.extractLane 8 .i32) ["i16x8.extract_lane_s", "i16x8.extract_lane_u"] ++
    same (.replaceLane 8 .i32) ["i16x8.replace_lane"] ++
    same (.extractLane 4 .i32) ["i32x4.extract_lane"] ++
    same (.replaceLane 4 .i32) ["i32x4.replace_lane"] ++
    same (.extractLane 2 .i64) ["i64x2.extract_lane"] ++
    same (.replaceLane 2 .i64) ["i64x2.replace_lane"] ++
    same (.extractLane 4 .f32) ["f32x4.extract_lane"] ++
    same (.replaceLane 4 .f32) ["f32x4.replace_lane"] ++
    same (.extractLane 2 .f64) ["f64x2.extract_lane"] ++
    same (.replaceLane 2 .f64) ["f64x2.replace_lane"] ++
    same binary ["i8x16.eq", "i8x16.ne", "i8x16.lt_s", "i8x16.lt_u", "i8x16.gt_s", "i8x16.gt_u",
        "i8x16.le_s", "i8x16.le_u", "i8x16.ge_s", "i8x16.ge_u", "i16x8.eq", "i16x8.ne",
        "i16x8.lt_s", "i16x8.lt_u", "i16x8.gt_s", "i16x8.gt_u", "i16x8.le_s", "i16x8.le_u",
        "i16x8.ge_s", "i16x8.ge_u", "i32x4.eq", "i32x4.ne", "i32x4.lt_s", "i32x4.lt_u",
        "i32x4.gt_s", "i32x4.gt_u", "i32x4.le_s", "i32x4.le_u", "i32x4.ge_s", "i32x4.ge_u",
        "f32x4.eq", "f32x4.ne", "f32x4.lt", "f32x4.gt", "f32x4.le", "f32x4.ge", "f64x2.eq",
        "f64x2.ne", "f64x2.lt", "f64x2.gt", "f64x2.le", "f64x2.ge"] ++
    same unary ["v128.not"] ++
    same binary ["v128.and", "v128.andnot", "v128.or", "v128.xor"] ++
    same ternary ["v128.bitselect"] ++
    same test ["v128.any_true"] ++
    same (.loadLane 0 16) ["v128.load8_lane"] ++
    same (.loadLane 1 8) ["v128.load16_lane"] ++
    same (.loadLane 2 4) ["v128.load32_lane"] ++
    same (.loadLane 3 2) ["v128.load64_lane"] ++
    same (.storeLane 0 16) ["v128.store8_lane"] ++
    same (.storeLane 1 8) ["v128.store16_lane"] ++
    same (.storeLane 2 4) ["v128.store32_lane"] ++
    same (.storeLane 3 2) ["v128.store64_lane"] ++
    same (.load 2) ["v128.load32_zero"] ++
    same (.load 3) ["v128.load64_zero"] ++
    same unary ["f32x4.demote_f64x2_zero", "f64x2.promote_low_f32x4", "i8x16.abs", "i8x16.neg",
        "i8x16.popcnt"] ++
    same test ["i8x16.all_true", "i8x16.bitmask"] ++
    same binary ["i8x16.narrow_i16x8_s", "i8x16.narrow_i16x8_u"] ++
    same unary ["f32x4.ceil", "f32x4.floor", "f32x4.trunc", "f32x4.nearest"] ++
    same shift ["i8x16.shl", "i8x16.shr_s", "i8x16.shr_u"] ++
    same binary ["i8x16.add", "i8x16.add_sat_s", "i8x16.add_sat_u", "i8x16.sub",
        "i8x16.sub_sat_s", "i8x16.sub_sat_u"] ++
    same unary ["f64x2.ceil", "f64x2.floor"] ++
    same binary ["i8x16.min_s", "i8x16.min_u", "i8x16.max_s", "i8x16.max_u"] ++
    same unary ["f64x2.trunc"] ++
    same binary ["i8x16.avgr_u"] ++
    same unary ["i16x8.extadd_pairwise_i8x16_s", "i16x8.extadd_pairwise_i8x16_u",
        "i32x4.extadd_pairwise_i16x8_s", "i32x4.extadd_pairwise_i16x8_u", "i16x8.abs", "i16x8.neg"] ++
    same binary ["i16x8.q15mulr_sat_s"] ++
    same test ["i16x8.all_true", "i16x8.bitmask"] ++
    same binary ["i16x8.narrow_i32x4_s", "i16x8.narrow_i32x4_u"] ++
    same unary ["i16x8.extend_low_i8x16_s", "i16x8.extend_high_i8x16_s",
        "i16x8.extend_low_i8x16_u", "i16x8.extend_high_i8x16_u"] ++
    same shift ["i16x8.shl", "i16x8.shr_s", "i16x8.shr_u"] ++
    same binary ["i16x8.add", "i16x8.add_sat_s", "i16x8.add_sat_u", "i16x8.sub",
        "i16x8.sub_sat_s", "i16x8.sub_sat_u"] ++
    same unary ["f64x2.nearest"] ++
    same binary ["i16x8.mul", "i16x8.min_s", "i16x8.min_u", "i16x8.max_s", "i16x8.max_u"]),
  (0x9b,
    same binary ["i16x8.avgr_u", "i16x8.extmul_low_i8x16_s", "i16x8.extmul_high_i8x16_s",
        "i16x8.extmul_low_i8x16_u", "i16x8.extmul_high_i8x16_u"] ++
    same unary ["i32x4.abs", "i32x4.neg"]),
  (0xa3,
    same test ["i32x4.all_true", "i32x4.bitmask"]),
  (0xa7,
    same unary ["i32x4.extend_low_i16x8_s", "i32x4.extend_high_i16x8_s",
        "i32x4.extend_low_i16x8_u", "i32x4.extend_high_i16x8_u"] ++
    same shift ["i32x4.shl", "i32x4.shr_s", "i32x4.shr_u"] ++
    same binary ["i32x4.add"]),
  (0xb1,
    same binary ["i32x4.sub"]),
  (0xb5,
    same binary ["i32x4.mul", "i32x4.min_s", "i32x4.min_u", "i32x4.max_s", "i32x4.max_u",
        "i32x4.dot_i16x8_s"]),
  (0xbc,
    same binary ["i32x4.extmul_low_i16x8_s", "i32x4.extmul_high_i16x8_s",
        "i32x4.extmul_low_i16x8_u", "i32x4.extmul_high_i16x8_u"] ++
    same unary ["i64x2.abs", "i64x2.neg"]),
  (0xc3,
    same test ["i64x2.all_true", "i64x2.bitmask"]),
  (0xc7,
    same unary ["i64x2.extend_low_i32x4_s", "i64x2.extend_high_i32x4_s",
        "i64x2.extend_low_i32x4_u", "i64x2.extend_high_i32x4_u"] ++
    same shift ["i64x2.shl", "i64x2.shr_s", "i64x2.shr_u"] ++
    same binary ["i64x2.add"]),
  (0xd1,
    same binary ["i64x2.sub"]),
  (0xd5,
    same binary ["i64x2.mul", "i64x2.eq", "i64x2.ne", "i64x2.lt_s", "i64x2.gt_s", "i64x2.le_s",
        "i64x2.ge_s", "i64x2.extmul_low_i32x4_s", "i64x2.extmul_high_i32x4_s",
        "i64x2.extmul_low_i32x4_u", "i64x2.extmul_high_i32x4_u"] ++
    same unary ["f32x4.abs", "f32x4.neg"]),
  (0xe3,
    same unary ["f32x4.sqrt"] ++
    same binary ["f32x4.add", "f32x4.sub", "f32x4.mul", "f32x4.div", "f32x4.min", "f32x4.max",
        "f32x4.pmin", "f32x4.pmax"] ++
    same unary ["f64x2.abs", "f64x2.neg"]),
  (0xef,
    same unary ["f64x2.sqrt"] ++
    same binary ["f64x2.add", "f64x2.sub", "f64x2.mul", "f64x2.div", "f64x2.min", "f64x2.max",
        "f64x2.pmin", "f64x2.pmax"] ++
    same unary ["i32x4.trunc_sat_f32x4_s", "i32x4.trunc_sat_f32x4_u", "f32x4.convert_i32x4_s",
        "f32x4.convert_i32x4_u", "i32x4.trunc_sat_f64x2_s_zero", "i32x4.trunc_sat_f64x2_u_zero",
        "f64x2.convert_low_i32x4_s", "f64x2.convert_low_i32x4_u"])]

/-- Every assigned operation with its opcode, in ascending order. -/
def numbered : List (UInt32 × VectorOp) :=
  runs.flatMap fun (first, ops) => ops.zipIdx.map fun (op, place) => ((first + place).toUInt32, op)

/-- One entry an opcode, from zero to the highest assigned one. -/
def table : Array (Option VectorOp) :=
  runs.foldl (fun entries (first, ops) =>
    entries ++ Array.replicate (first - entries.size) none ++ (ops.map some).toArray) #[]

def ofOpcode? (opcode : UInt32) : Option VectorOp := (table[opcode.toNat]?).join

def signature? (opcode : UInt32) : Option VectorSignature := (ofOpcode? opcode).map (·.signature)

def mnemonic? (opcode : UInt32) : Option String := (ofOpcode? opcode).map (·.mnemonic)

/-- The opcode of the operation with a name. -/
def opcode? (mnemonic : String) : Option UInt32 :=
  (numbered.find? fun (_, op) => op.mnemonic == mnemonic).map (·.1)

/-- `v128.const`, which carries sixteen bytes. -/
def constOpcode : UInt32 := 0x0c

/-- `i8x16.shuffle`, which carries sixteen lane numbers. -/
def shuffleOpcode : UInt32 := 0x0d

end VectorOp

end Wasm
