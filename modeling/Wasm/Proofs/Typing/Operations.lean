import Wasm.Instruction.Basic
import Wasm.Proofs.Outcome

/-! # What operations take and give

The types of every numeric operation, the bytes that every access touches and the meaning of every vector opcode, as the
format has them. They are laid down here for themselves, by operation and by opcode. The tables that instructions are
checked with are shown to say the same: each row of them meets these rules, and the rules name no opcode that has no row.
-/

namespace Wasm

/-! ## Numbers -/

inductive Width.IsInt : Width → ValueType → Prop where
  | w32 : IsInt .w32 .i32
  | w64 : IsInt .w64 .i64

inductive Width.IsFloat : Width → ValueType → Prop where
  | w32 : IsFloat .w32 .f32
  | w64 : IsFloat .w64 .f64

/-- What a numeric operation takes and gives. -/
inductive NumericOp.HasType : NumericOp → List ValueType → List ValueType → Prop where
  | eqz {w t} (int : w.IsInt t) : HasType (.eqz w) [t] [.i32]
  | intCompare {w t} (int : w.IsInt t) (op : IntCompare) : HasType (.intCompare w op) [t, t] [.i32]
  | floatCompare {w t} (float : w.IsFloat t) (op : FloatCompare) : HasType (.floatCompare w op) [t, t] [.i32]
  | intUnary {w t} (int : w.IsInt t) (op : IntUnary) : HasType (.intUnary w op) [t] [t]
  | intBinary {w t} (int : w.IsInt t) (op : IntBinary) : HasType (.intBinary w op) [t, t] [t]
  | floatUnary {w t} (float : w.IsFloat t) (op : FloatUnary) : HasType (.floatUnary w op) [t] [t]
  | floatBinary {w t} (float : w.IsFloat t) (op : FloatBinary) : HasType (.floatBinary w op) [t, t] [t]
  | wrap : HasType (.conversion .wrap) [.i64] [.i32]
  | extend (s : Signedness) : HasType (.conversion (.extend s)) [.i32] [.i64]
  | trunc {target source t u} (float : source.IsFloat t) (int : target.IsInt u) (s : Signedness) :
      HasType (.conversion (.trunc target source s)) [t] [u]
  | truncSat {target source t u} (float : source.IsFloat t) (int : target.IsInt u) (s : Signedness) :
      HasType (.conversion (.truncSat target source s)) [t] [u]
  | convert {target source t u} (int : source.IsInt t) (float : target.IsFloat u) (s : Signedness) :
      HasType (.conversion (.convert target source s)) [t] [u]
  | demote : HasType (.conversion .demote) [.f64] [.f32]
  | promote : HasType (.conversion .promote) [.f32] [.f64]
  | reinterpretFloat {w t u} (float : w.IsFloat t) (int : w.IsInt u) :
      HasType (.conversion (.reinterpretFloat w)) [t] [u]
  | reinterpretInt {w t u} (int : w.IsInt t) (float : w.IsFloat u) :
      HasType (.conversion (.reinterpretInt w)) [t] [u]
  | signExtend32 (bits : Narrow32) : HasType (.signExtend32 bits) [.i32] [.i32]
  | signExtend64 (bits : Narrow64) : HasType (.signExtend64 bits) [.i64] [.i64]

/-! ## Accesses -/

/-- How much of a memory an access touches. -/
inductive Extent where
  | bits8 | bits16 | bits32 | bits64 | bits128
deriving DecidableEq, Repr

def Extent.bytes : Extent → Nat
  | bits8 => 1
  | bits16 => 2
  | bits32 => 4
  | bits64 => 8
  | bits128 => 16

/-- The alignment that is promised is no larger than what is accessed. -/
def MemArg.Aligned (arg : MemArg) (extent : Extent) : Prop := 2 ^ arg.align.toNat ≤ extent.bytes

/-- A load reads so much and gives a value of a type. -/
inductive LoadOp.Loads : LoadOp → Extent → ValueType → Prop where
  | i32 : Loads (.whole .i32) .bits32 .i32
  | i64 : Loads (.whole .i64) .bits64 .i64
  | f32 : Loads (.whole .f32) .bits32 .f32
  | f64 : Loads (.whole .f64) .bits64 .f64
  | i32Of8 (s : Signedness) : Loads (.narrow32 .bits8 s) .bits8 .i32
  | i32Of16 (s : Signedness) : Loads (.narrow32 .bits16 s) .bits16 .i32
  | i64Of8 (s : Signedness) : Loads (.narrow64 .bits8 s) .bits8 .i64
  | i64Of16 (s : Signedness) : Loads (.narrow64 .bits16 s) .bits16 .i64
  | i64Of32 (s : Signedness) : Loads (.narrow64 .bits32 s) .bits32 .i64

/-- A store takes a value of a type and writes so much. -/
inductive StoreOp.Stores : StoreOp → Extent → ValueType → Prop where
  | i32 : Stores (.whole .i32) .bits32 .i32
  | i64 : Stores (.whole .i64) .bits64 .i64
  | f32 : Stores (.whole .f32) .bits32 .f32
  | f64 : Stores (.whole .f64) .bits64 .f64
  | i32To8 : Stores (.narrow32 .bits8) .bits8 .i32
  | i32To16 : Stores (.narrow32 .bits16) .bits16 .i32
  | i64To8 : Stores (.narrow64 .bits8) .bits8 .i64
  | i64To16 : Stores (.narrow64 .bits16) .bits16 .i64
  | i64To32 : Stores (.narrow64 .bits32) .bits32 .i64

/-! ## Vectors -/

/-- How the sixteen bytes of a vector are divided into lanes. -/
inductive Shape where
  | i8x16 | i16x8 | i32x4 | i64x2 | f32x4 | f64x2
deriving DecidableEq, Repr

namespace Shape

def lanes : Shape → UInt8
  | i8x16 => 16
  | i16x8 => 8
  | i32x4 | f32x4 => 4
  | i64x2 | f64x2 => 2

/-- What one lane is outside of the vector: integers of fewer than 32 bits are widened. -/
def lane : Shape → ValueType
  | i8x16 | i16x8 | i32x4 => .i32
  | i64x2 => .i64
  | f32x4 => .f32
  | f64x2 => .f64

end Shape

/-- What a vector opcode stands for. -/
inductive VectorKind where
  | const
  | shuffle
  /-- From so many vectors to one. -/
  | unary | binary | ternary
  /-- From a vector to a number: whether any or all lanes are set, and the mask of the lanes' signs. -/
  | test
  /-- From a vector and a distance to a vector. -/
  | shift
  /-- From one lane to a vector of it. -/
  | splat (shape : Shape)
  | extract (shape : Shape)
  | replace (shape : Shape)
  /-- From an address to a vector, for which so much is read. -/
  | load (extent : Extent)
  | store (extent : Extent)
  /-- One lane of this size is read, the others are kept. -/
  | loadLane (extent : Extent)
  | storeLane (extent : Extent)
deriving DecidableEq, Repr

/-- What a vector operation without immediates takes and gives. -/
inductive VectorKind.HasType : VectorKind → List ValueType → List ValueType → Prop where
  | unary : HasType .unary [.v128] [.v128]
  | binary : HasType .binary [.v128, .v128] [.v128]
  | ternary : HasType .ternary [.v128, .v128, .v128] [.v128]
  | test : HasType .test [.v128] [.i32]
  | shift : HasType .shift [.v128, .i32] [.v128]
  | splat (shape : Shape) : HasType (.splat shape) [shape.lane] [.v128]

/-- The number of a lane, where lanes of this size fill the sixteen bytes of a vector. -/
def Extent.HasLane (extent : Extent) (lane : UInt8) : Prop := (lane.toNat + 1) * extent.bytes ≤ 16

namespace VectorOp

/-- The assigned opcodes, from one to another that stands for the same. -/
def spans : List (Nat × Nat × VectorKind) := [
  (0x00, 0x00, .load .bits128),
  (0x01, 0x06, .load .bits64), -- half a vector, widened
  -- one lane for all
  (0x07, 0x07, .load .bits8), (0x08, 0x08, .load .bits16), (0x09, 0x09, .load .bits32), (0x0a, 0x0a, .load .bits64),
  (0x0b, 0x0b, .store .bits128),
  (0x0c, 0x0c, .const), (0x0d, 0x0d, .shuffle),
  (0x0e, 0x0e, .binary), -- swizzle
  (0x0f, 0x0f, .splat .i8x16), (0x10, 0x10, .splat .i16x8), (0x11, 0x11, .splat .i32x4), (0x12, 0x12, .splat .i64x2),
  (0x13, 0x13, .splat .f32x4), (0x14, 0x14, .splat .f64x2),
  (0x15, 0x16, .extract .i8x16), (0x17, 0x17, .replace .i8x16), -- signed and unsigned
  (0x18, 0x19, .extract .i16x8), (0x1a, 0x1a, .replace .i16x8),
  (0x1b, 0x1b, .extract .i32x4), (0x1c, 0x1c, .replace .i32x4),
  (0x1d, 0x1d, .extract .i64x2), (0x1e, 0x1e, .replace .i64x2),
  (0x1f, 0x1f, .extract .f32x4), (0x20, 0x20, .replace .f32x4),
  (0x21, 0x21, .extract .f64x2), (0x22, 0x22, .replace .f64x2),
  (0x23, 0x4c, .binary), -- comparisons, but for those of i64x2
  (0x4d, 0x4d, .unary), (0x4e, 0x51, .binary), (0x52, 0x52, .ternary), (0x53, 0x53, .test), -- bitwise
  (0x54, 0x54, .loadLane .bits8), (0x55, 0x55, .loadLane .bits16),
  (0x56, 0x56, .loadLane .bits32), (0x57, 0x57, .loadLane .bits64),
  (0x58, 0x58, .storeLane .bits8), (0x59, 0x59, .storeLane .bits16),
  (0x5a, 0x5a, .storeLane .bits32), (0x5b, 0x5b, .storeLane .bits64),
  (0x5c, 0x5c, .load .bits32), (0x5d, 0x5d, .load .bits64), -- one lane and zeros
  (0x5e, 0x5f, .unary), -- demote and promote
  -- i8x16, with the roundings of floats
  (0x60, 0x62, .unary), (0x63, 0x64, .test), (0x65, 0x66, .binary), (0x67, 0x6a, .unary), (0x6b, 0x6d, .shift),
  (0x6e, 0x73, .binary), (0x74, 0x75, .unary), (0x76, 0x79, .binary), (0x7a, 0x7a, .unary), (0x7b, 0x7b, .binary),
  (0x7c, 0x7f, .unary), -- pairwise sums
  -- i16x8
  (0x80, 0x81, .unary), (0x82, 0x82, .binary), (0x83, 0x84, .test), (0x85, 0x86, .binary), (0x87, 0x8a, .unary),
  (0x8b, 0x8d, .shift), (0x8e, 0x93, .binary), (0x94, 0x94, .unary), (0x95, 0x99, .binary), (0x9b, 0x9f, .binary),
  -- i32x4
  (0xa0, 0xa1, .unary), (0xa3, 0xa4, .test), (0xa7, 0xaa, .unary), (0xab, 0xad, .shift), (0xae, 0xae, .binary),
  (0xb1, 0xb1, .binary), (0xb5, 0xba, .binary), (0xbc, 0xbf, .binary),
  -- i64x2
  (0xc0, 0xc1, .unary), (0xc3, 0xc4, .test), (0xc7, 0xca, .unary), (0xcb, 0xcd, .shift), (0xce, 0xce, .binary),
  (0xd1, 0xd1, .binary), (0xd5, 0xdf, .binary),
  -- floats
  (0xe0, 0xe1, .unary), (0xe3, 0xe3, .unary), (0xe4, 0xeb, .binary), (0xec, 0xed, .unary), (0xef, 0xef, .unary),
  (0xf0, 0xf7, .binary), (0xf8, 0xff, .unary)]

/-- What an opcode stands for, if it is assigned. -/
def kind? (opcode : Nat) : Option VectorKind :=
  (spans.find? fun span => span.1 ≤ opcode && opcode ≤ span.2.1).map (·.2.2)

end VectorOp

/-! ## The tables of the checker -/

theorem Width.isInt_int (w : Width) : w.IsInt (.num w.int) := by
  cases w <;> constructor

theorem Width.isFloat_float (w : Width) : w.IsFloat (.num w.float) := by
  cases w <;> constructor

namespace NumericOp

theorem hasType_signature (op : NumericOp) : op.HasType op.signature.params op.signature.results := by
  cases op with
  | eqz w => exact .eqz w.isInt_int
  | intCompare w op => exact .intCompare w.isInt_int op
  | floatCompare w op => exact .floatCompare w.isFloat_float op
  | intUnary w op => exact .intUnary w.isInt_int op
  | intBinary w op => exact .intBinary w.isInt_int op
  | floatUnary w op => exact .floatUnary w.isFloat_float op
  | floatBinary w op => exact .floatBinary w.isFloat_float op
  | conversion c =>
    cases c with
    | wrap => exact .wrap
    | trunc target source s => exact .trunc source.isFloat_float target.isInt_int s
    | truncSat target source s => exact .truncSat source.isFloat_float target.isInt_int s
    | extend s => exact .extend s
    | convert target source s => exact .convert source.isInt_int target.isFloat_float s
    | demote => exact .demote
    | promote => exact .promote
    | reinterpretFloat w => exact .reinterpretFloat w.isFloat_float w.isInt_int
    | reinterpretInt w => exact .reinterpretInt w.isInt_int w.isFloat_float
  | signExtend32 bits => exact .signExtend32 bits
  | signExtend64 bits => exact .signExtend64 bits

theorem HasType.signature {op : NumericOp} {ts us : List ValueType} (typed : op.HasType ts us) :
    op.signature = ⟨ts, us⟩ := by
  cases typed with
  | eqz int | intCompare int | intUnary int | intBinary int => cases int <;> rfl
  | floatCompare float | floatUnary float | floatBinary float => cases float <;> rfl
  | trunc float int | truncSat float int | reinterpretFloat float int => cases float <;> cases int <;> rfl
  | convert int float | reinterpretInt int float => cases int <;> cases float <;> rfl
  | wrap | extend | demote | promote | signExtend32 | signExtend64 => rfl

end NumericOp

/-- Alignments are compared by their exponents. -/
def Extent.exponent : Extent → UInt32
  | bits8 => 0
  | bits16 => 1
  | bits32 => 2
  | bits64 => 3
  | bits128 => 4

theorem MemArg.aligned_iff {arg : MemArg} {extent : Extent} : arg.Aligned extent ↔ arg.align ≤ extent.exponent := by
  have power : extent.bytes = 2 ^ extent.exponent.toNat := by cases extent <;> rfl
  rw [Aligned, power, Nat.pow_le_pow_iff_right (by decide), UInt32.le_iff_toNat_le]

theorem LoadOp.Loads.table {op : LoadOp} {extent : Extent} {t : ValueType} (loads : op.Loads extent t) :
    op.natural = extent.exponent ∧ .num op.result = t := by
  cases loads <;> exact ⟨rfl, rfl⟩

theorem LoadOp.loads_result (op : LoadOp) : ∃ extent, op.Loads extent (.num op.result) := by
  rcases op with (_ | _ | _ | _) | ⟨_ | _, s⟩ | ⟨_ | _ | _, s⟩ <;> exact ⟨_, by constructor⟩

theorem StoreOp.Stores.table {op : StoreOp} {extent : Extent} {t : ValueType} (stores : op.Stores extent t) :
    op.natural = extent.exponent ∧ .num op.operand = t := by
  cases stores <;> exact ⟨rfl, rfl⟩

theorem StoreOp.stores_operand (op : StoreOp) : ∃ extent, op.Stores extent (.num op.operand) := by
  rcases op with (_ | _ | _ | _) | (_ | _) | (_ | _ | _) <;> exact ⟨_, by constructor⟩

def Extent.lanes : Extent → UInt8
  | bits8 => 16
  | bits16 => 8
  | bits32 => 4
  | bits64 => 2
  | bits128 => 1

theorem Extent.hasLane_iff {extent : Extent} {lane : UInt8} : extent.HasLane lane ↔ lane < extent.lanes := by
  rw [HasLane, UInt8.lt_iff_toNat_lt]
  cases extent <;> simp only [bytes, lanes, UInt8.toNat_ofNat] <;> omega

/-- The row that the checker has for a kind of operation. -/
def VectorKind.row : VectorKind → VectorSignature
  | const => .fixed [] [.v128]
  | unary => .fixed [.v128] [.v128]
  | shuffle | binary => .fixed [.v128, .v128] [.v128]
  | ternary => .fixed [.v128, .v128, .v128] [.v128]
  | test => .fixed [.v128] [.i32]
  | shift => .fixed [.v128, .i32] [.v128]
  | splat shape => .fixed [shape.lane] [.v128]
  | extract shape => .extractLane shape.lanes shape.lane
  | replace shape => .replaceLane shape.lanes shape.lane
  | load extent => .load extent.exponent
  | store extent => .store extent.exponent
  | loadLane extent => .loadLane extent.exponent extent.lanes
  | storeLane extent => .storeLane extent.exponent extent.lanes

theorem VectorKind.HasType.row {kind : VectorKind} {ts us : List ValueType} (typed : kind.HasType ts us) :
    kind.row = .fixed ts us := by
  cases typed <;> rfl

namespace VectorOp

/-- The table as a list. -/
def rows : List (Option VectorOp) :=
  runs.foldl (fun entries run => entries ++ List.replicate (run.1 - entries.length) none ++ run.2.map some) []

theorem toList_table : table.toList = rows := by
  have along (rest : List (Nat × List VectorOp)) (entries : Array (Option VectorOp)) :
      (rest.foldl (fun entries run => entries ++ Array.replicate (run.1 - entries.size) none ++ (run.2.map some).toArray)
        entries).toList =
      rest.foldl (fun entries run => entries ++ List.replicate (run.1 - entries.length) none ++ run.2.map some)
        entries.toList := by
    induction rest generalizing entries with
    | nil => rfl
    | cons run rest ih =>
      rw [List.foldl_cons, List.foldl_cons, ih]
      simp
  exact along runs #[]

theorem signatures_rows : rows.map (·.map (·.signature)) = (List.range 256).map fun n => (kind? n).map (·.row) := by
  decide +kernel

theorem span_of_kind {opcode : Nat} {kind : VectorKind} (assigned : kind? opcode = some kind) :
    ∃ span ∈ spans, span.1 ≤ opcode ∧ opcode ≤ span.2.1 ∧ span.2.2 = kind := by
  obtain ⟨span, found, same⟩ := Option.map_eq_some_iff.mp assigned
  have inside := List.find?_some found
  rw [Bool.and_eq_true, decide_eq_true_eq, decide_eq_true_eq] at inside
  exact ⟨span, List.mem_of_find?_eq_some found, inside.1, inside.2, same⟩

theorem kind?_eq_none {opcode : Nat} (beyond : 256 ≤ opcode) : kind? opcode = none := by
  have bounded : ∀ span ∈ spans, span.2.1 < 256 := by decide
  cases assigned : kind? opcode with
  | none => rfl
  | some kind =>
    obtain ⟨span, member, -, last, -⟩ := span_of_kind assigned
    have := bounded span member
    omega

/-- The table has a row for each opcode that is assigned, and only for those. -/
theorem signature?_eq (sub : UInt32) : signature? sub = (kind? sub.toNat).map (·.row) := by
  have looked : signature? sub = ((rows.map (·.map (·.signature)))[sub.toNat]?).join := by
    unfold signature? ofOpcode?
    rw [← Array.getElem?_toList, toList_table, List.getElem?_map]
    cases rows[sub.toNat]? <;> rfl
  rw [looked, signatures_rows, List.getElem?_map]
  rcases Nat.lt_or_ge sub.toNat 256 with small | beyond
  · rw [List.getElem?_range small]
    rfl
  · rw [List.getElem?_eq_none (by rwa [List.length_range]), kind?_eq_none beyond]
    rfl

theorem signature?_of_kind {sub : UInt32} {kind : VectorKind} (assigned : kind? sub.toNat = some kind) :
    signature? sub = some kind.row := by
  rw [signature?_eq, assigned]
  rfl

theorem kind_of_signature {sub : UInt32} {row : VectorSignature} (found : signature? sub = some row) :
    ∃ kind, kind? sub.toNat = some kind ∧ kind.row = row := by
  rw [signature?_eq] at found
  exact Option.map_eq_some_iff.mp found

/-- The operations without immediates are those with a fixed row, but for the two opcodes that immediates follow. -/
theorem fixed_iff {sub : UInt32} {ts us : List ValueType} :
    signature? sub = some (.fixed ts us) ∧ sub ≠ constOpcode ∧ sub ≠ shuffleOpcode ↔
      ∃ kind, kind? sub.toNat = some kind ∧ kind.HasType ts us := by
  constructor
  · rintro ⟨found, notConst, notShuffle⟩
    obtain ⟨kind, assigned, row⟩ := kind_of_signature found
    obtain ⟨span, member, first, last, rfl⟩ := span_of_kind assigned
    have alone : ∀ span ∈ spans,
        (span.2.2 = .const → span.1 = constOpcode.toNat ∧ span.2.1 = constOpcode.toNat) ∧
        (span.2.2 = .shuffle → span.1 = shuffleOpcode.toNat ∧ span.2.1 = shuffleOpcode.toNat) := by decide
    obtain ⟨const, shuffle⟩ := alone span member
    refine ⟨span.2.2, assigned, ?_⟩
    cases stands : span.2.2 with
    | const =>
      obtain ⟨start, stop⟩ := const stands
      exact absurd (UInt32.toNat_inj.mp (by omega)) notConst
    | shuffle =>
      obtain ⟨start, stop⟩ := shuffle stands
      exact absurd (UInt32.toNat_inj.mp (by omega)) notShuffle
    | unary | binary | ternary | test | shift | splat =>
      rw [stands] at row
      cases row
      constructor
    | extract | replace | load | store | loadLane | storeLane =>
      rw [stands] at row
      cases row
  · rintro ⟨kind, assigned, typed⟩
    refine ⟨typed.row ▸ signature?_of_kind assigned, ?_, ?_⟩
    · rintro rfl
      cases (show some VectorKind.const = some kind from assigned)
      cases typed
    · rintro rfl
      cases (show some VectorKind.shuffle = some kind from assigned)
      cases typed

end VectorOp

end Wasm
