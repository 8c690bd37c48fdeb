import Wasm.Proofs.Binary.Yields
import Wasm.Proofs.Encoding.Instructions

/-! # Instructions and their bytes

Which instructions can be written is said of the instructions alone: all of them, but for value types of blocks whose
tag reads as another block type, tables and lists of more entries than a reader allows, and vector instructions whose
immediates are not of the shape that their opcode asks for. These are the instructions that decoding gives, from whatever
bytes; and each of them is decoded from the bytes it is written as, whatever follows them.
-/

namespace Wasm

open Binary

/-! ## Numbers of operations

The opcodes as the format assigns them, each by itself. Decoding looks operations up by their place in a list, and so
does encoding: that the lists have each operation where the format does is shown here. -/

namespace Signedness

/-- Signed variants come before unsigned ones. -/
def place : Signedness → UInt8
  | signed => 0
  | unsigned => 1

end Signedness

namespace Width

def place : Width → UInt8
  | w32 => 0
  | w64 => 1

end Width

namespace IntCompare

def place : IntCompare → UInt8
  | eq => 0
  | ne => 1
  | lt s => 2 + s.place
  | gt s => 4 + s.place
  | le s => 6 + s.place
  | ge s => 8 + s.place

end IntCompare

namespace FloatCompare

def place : FloatCompare → UInt8
  | eq => 0
  | ne => 1
  | lt => 2
  | gt => 3
  | le => 4
  | ge => 5

end FloatCompare

namespace IntUnary

def place : IntUnary → UInt8
  | clz => 0
  | ctz => 1
  | popcnt => 2

end IntUnary

namespace IntBinary

def place : IntBinary → UInt8
  | add => 0
  | sub => 1
  | mul => 2
  | div s => 3 + s.place
  | rem s => 5 + s.place
  | and => 7
  | or => 8
  | xor => 9
  | shl => 10
  | shr s => 11 + s.place
  | rotl => 13
  | rotr => 14

end IntBinary

namespace FloatUnary

def place : FloatUnary → UInt8
  | abs => 0
  | neg => 1
  | ceil => 2
  | floor => 3
  | trunc => 4
  | nearest => 5
  | sqrt => 6

end FloatUnary

namespace FloatBinary

def place : FloatBinary → UInt8
  | add => 0
  | sub => 1
  | mul => 2
  | div => 3
  | min => 4
  | max => 5
  | copysign => 6

end FloatBinary

namespace Narrow32

def place : Narrow32 → UInt8
  | bits8 => 0
  | bits16 => 1

end Narrow32

namespace Narrow64

def place : Narrow64 → UInt8
  | bits8 => 0
  | bits16 => 1
  | bits32 => 2

end Narrow64

namespace NumType

def place : NumType → UInt8
  | i32 => 0
  | i64 => 1
  | f32 => 2
  | f64 => 3

end NumType

namespace LoadOp

def assigned : LoadOp → UInt8
  | whole t => 0x28 + t.place
  | narrow32 bits s => 0x2c + 2 * bits.place + s.place
  | narrow64 bits s => 0x30 + 2 * bits.place + s.place

theorem found_assigned (op : LoadOp) : ofOpcode? op.assigned = some op := by
  cases op with
  | whole t => cases t <;> rfl
  | narrow32 bits s => cases bits <;> cases s <;> rfl
  | narrow64 bits s => cases bits <;> cases s <;> rfl

end LoadOp

namespace StoreOp

def assigned : StoreOp → UInt8
  | whole t => 0x36 + t.place
  | narrow32 bits => 0x3a + bits.place
  | narrow64 bits => 0x3c + bits.place

theorem found_assigned (op : StoreOp) : ofOpcode? op.assigned = some op := by
  cases op with
  | whole t => cases t <;> rfl
  | narrow32 bits => cases bits <;> rfl
  | narrow64 bits => cases bits <;> rfl

end StoreOp

namespace Conversion

def assigned : Conversion → Opcode
  | wrap => .single 0xa7
  | trunc .w32 source s => .single (0xa8 + 2 * source.place + s.place)
  | extend s => .single (0xac + s.place)
  | trunc .w64 source s => .single (0xae + 2 * source.place + s.place)
  | convert .w32 source s => .single (0xb2 + 2 * source.place + s.place)
  | demote => .single 0xb6
  | convert .w64 source s => .single (0xb7 + 2 * source.place + s.place)
  | promote => .single 0xbb
  | reinterpretFloat w => .single (0xbc + w.place)
  | reinterpretInt w => .single (0xbe + w.place)
  | truncSat target source s => .extended (4 * target.place + 2 * source.place + s.place).toUInt32

end Conversion

namespace NumericOp

def assigned : NumericOp → Opcode
  | eqz .w32 => .single 0x45
  | intCompare .w32 op => .single (0x46 + op.place)
  | eqz .w64 => .single 0x50
  | intCompare .w64 op => .single (0x51 + op.place)
  | floatCompare .w32 op => .single (0x5b + op.place)
  | floatCompare .w64 op => .single (0x61 + op.place)
  | intUnary .w32 op => .single (0x67 + op.place)
  | intBinary .w32 op => .single (0x6a + op.place)
  | intUnary .w64 op => .single (0x79 + op.place)
  | intBinary .w64 op => .single (0x7c + op.place)
  | floatUnary .w32 op => .single (0x8b + op.place)
  | floatBinary .w32 op => .single (0x92 + op.place)
  | floatUnary .w64 op => .single (0x99 + op.place)
  | floatBinary .w64 op => .single (0xa0 + op.place)
  | conversion c => c.assigned
  | signExtend32 .bits8 => .single 0xc0
  | signExtend32 .bits16 => .single 0xc1
  | signExtend64 .bits8 => .single 0xc2
  | signExtend64 .bits16 => .single 0xc3
  | signExtend64 .bits32 => .single 0xc4

/-- The operation that an opcode stands for in the lists. -/
def ofAnyOpcode? : Opcode → Option NumericOp
  | .single byte => ofOpcode? byte
  | .extended sub => ofSaturatingOpcode? sub
  | .vector _ => none

theorem found_assigned (op : NumericOp) : ofAnyOpcode? op.assigned = some op := by
  -- The list is too long to be unfolded step by step, so each entry is left to the kernel.
  cases op with
  | eqz w => cases w <;> decide +kernel
  | intCompare w op => cases w <;> rcases op with _ | _ | (_ | _) | (_ | _) | (_ | _) | (_ | _) <;> decide +kernel
  | floatCompare w op => cases w <;> cases op <;> decide +kernel
  | intUnary w op => cases w <;> cases op <;> decide +kernel
  | intBinary w op =>
    cases w <;> rcases op with _ | _ | _ | (_ | _) | (_ | _) | _ | _ | _ | _ | (_ | _) | _ | _ <;> decide +kernel
  | floatUnary w op => cases w <;> cases op <;> decide +kernel
  | floatBinary w op => cases w <;> cases op <;> decide +kernel
  | conversion c =>
    cases c with
    | wrap | demote | promote => decide +kernel
    | trunc target source s | truncSat target source s | convert target source s =>
      cases target <;> cases source <;> cases s <;> decide +kernel
    | extend s => cases s <;> decide +kernel
    | reinterpretFloat w | reinterpretInt w => cases w <;> decide +kernel
  | signExtend32 bits => cases bits <;> decide +kernel
  | signExtend64 bits => cases bits <;> decide +kernel

end NumericOp

theorem NumericOp.opcode_of_any {o : Opcode} {op : NumericOp} (found : ofAnyOpcode? o = some op) : op.opcode = o := by
  cases o with
  | single byte => exact opcode_of_found found
  | extended sub => exact opcode_of_saturating found
  | vector sub => cases found

/-! Operations are written with the opcodes that the format assigns to them. -/

theorem LoadOp.opcode_eq_assigned (op : LoadOp) : op.opcode = op.assigned := opcode_of_found op.found_assigned

theorem StoreOp.opcode_eq_assigned (op : StoreOp) : op.opcode = op.assigned := opcode_of_found op.found_assigned

theorem NumericOp.opcode_eq_assigned (op : NumericOp) : op.opcode = op.assigned := opcode_of_any op.found_assigned

/-! ## The layout of each operation

The opcodes of a table lie together, between those that stand for one instruction each. -/

/-- An opcode that a table which starts at `first` has an operation for. -/
theorem bounds_of_table {α : Type} {xs : List α} {first : Nat} {opcode : UInt8} {a : α}
    (found : (if first ≤ opcode.toNat then xs.toArray[opcode.toNat - first]? else none) = some a) :
    first ≤ opcode.toNat ∧ opcode.toNat < first + xs.length := by
  split at found
  · rename_i after
    rw [List.getElem?_toArray] at found
    obtain ⟨inside, -⟩ := List.getElem?_eq_some_iff.mp found
    omega
  · cases found

theorem none_of_table {α : Type} {xs : List α} {first : Nat} {opcode : UInt8} (after : first + xs.length ≤ opcode.toNat) :
    (if first ≤ opcode.toNat then xs.toArray[opcode.toNat - first]? else none) = none := by
  rw [if_pos (by omega), List.getElem?_toArray, List.getElem?_eq_none (by omega)]

theorem LoadOp.bounds_of_found {opcode : UInt8} {op : LoadOp} (found : ofOpcode? opcode = some op) :
    0x28 ≤ opcode.toNat ∧ opcode.toNat < 0x36 := bounds_of_table found

theorem StoreOp.bounds_of_found {opcode : UInt8} {op : StoreOp} (found : ofOpcode? opcode = some op) :
    0x36 ≤ opcode.toNat ∧ opcode.toNat < 0x3f := bounds_of_table found

theorem NumericOp.length_inOrder : inOrder.length = 0x80 := by decide +kernel

theorem NumericOp.bounds_of_found {opcode : UInt8} {op : NumericOp} (found : ofOpcode? opcode = some op) :
    0x45 ≤ opcode.toNat ∧ opcode.toNat < 0xc5 := by
  have bounds := bounds_of_table found
  rwa [length_inOrder] at bounds

theorem LoadOp.ofOpcode?_eq_none {opcode : UInt8} (after : 0x36 ≤ opcode.toNat) : ofOpcode? opcode = none :=
  none_of_table after

theorem StoreOp.ofOpcode?_eq_none {opcode : UInt8} (after : 0x3f ≤ opcode.toNat) : ofOpcode? opcode = none :=
  none_of_table after

theorem NumericOp.ofOpcode?_eq_none {opcode : UInt8} (after : 0xc5 ≤ opcode.toNat) : ofOpcode? opcode = none :=
  none_of_table (by rwa [length_inOrder])

/-- The two operations that carry sixteen bytes have fixed signatures. -/
theorem VectorOp.signature?_sixteen :
    signature? constOpcode = some (.fixed [] [.v128]) ∧ signature? shuffleOpcode = some binary := by
  have const : kind? constOpcode.toNat = some .const := rfl
  have shuffle : kind? shuffleOpcode.toNat = some .shuffle := rfl
  exact ⟨signature?_of_kind const, signature?_of_kind shuffle⟩

namespace Binary

namespace Layout

theorem ofOpcode?_of_load {opcode : UInt8} {op : LoadOp} (found : LoadOp.ofOpcode? opcode = some op) :
    ofOpcode? opcode = some (.memArg fun arg => .plain (.load op arg)) := by
  have bounds := LoadOp.bounds_of_found found
  unfold ofOpcode?
  split
  rotate_right
  · rw [found]
  all_goals exact absurd bounds (by decide)

theorem ofOpcode?_of_store {opcode : UInt8} {op : StoreOp} (found : StoreOp.ofOpcode? opcode = some op) :
    ofOpcode? opcode = some (.memArg fun arg => .plain (.store op arg)) := by
  have bounds := StoreOp.bounds_of_found found
  unfold ofOpcode?
  split
  rotate_right
  · rw [LoadOp.ofOpcode?_eq_none bounds.1, found]
  all_goals exact absurd bounds (by decide)

theorem ofOpcode?_of_numeric {opcode : UInt8} {op : NumericOp} (found : NumericOp.ofOpcode? opcode = some op) :
    ofOpcode? opcode = some (.bare (.plain (.numeric op))) := by
  have bounds := NumericOp.bounds_of_found found
  unfold ofOpcode?
  split
  rotate_right
  · rw [LoadOp.ofOpcode?_eq_none (by omega), StoreOp.ofOpcode?_eq_none (by omega), found]
  all_goals exact absurd bounds (by decide)

theorem ofOpcode?_eq_none {opcode : UInt8} (after : 0xd3 ≤ opcode.toNat) : ofOpcode? opcode = none := by
  unfold ofOpcode?
  split
  rotate_right
  · rw [LoadOp.ofOpcode?_eq_none (by omega), StoreOp.ofOpcode?_eq_none (by omega),
      NumericOp.ofOpcode?_eq_none (by omega)]
  all_goals exact absurd after (by decide)

theorem ofExtended?_of_saturating {sub : UInt32} {op : NumericOp} (found : NumericOp.ofSaturatingOpcode? sub = some op) :
    ofExtended? sub = some (.bare (.plain (.numeric op))) := by
  unfold ofExtended?
  split
  rotate_right
  · rw [found]
    rfl
  all_goals cases found

/-- The layout of a vector operation that does not carry sixteen bytes. -/
def ofSignature (sub : UInt32) : VectorSignature → Layout
  | .fixed .. => .bare (.plain (.vector sub))
  | .extractLane .. | .replaceLane .. => .lane fun lane => .plain (.vectorLane sub lane)
  | .load _ | .store _ => .memArg fun arg => .plain (.vectorMemory sub arg)
  | .loadLane .. | .storeLane .. => .memArgLane fun arg lane => .plain (.vectorMemoryLane sub arg lane)

theorem ofVector?_of_signature {sub : UInt32} {signature : VectorSignature}
    (found : VectorOp.signature? sub = some signature)
    (apart : sub ≠ VectorOp.constOpcode ∧ sub ≠ VectorOp.shuffleOpcode) :
    ofVector? sub = some (ofSignature sub signature) := by
  rw [ofVector?, if_neg apart.1, if_neg apart.2, found]
  cases signature <;> rfl

theorem ofVector?_of_unfixed {sub : UInt32} {signature : VectorSignature}
    (found : VectorOp.signature? sub = some signature)
    (unfixed : ∀ params results, signature ≠ .fixed params results) :
    ofVector? sub = some (ofSignature sub signature) := by
  obtain ⟨const, shuffle⟩ := VectorOp.signature?_sixteen
  refine ofVector?_of_signature found ⟨?_, ?_⟩
  · rintro rfl
    rw [const] at found
    cases found
    exact unfixed _ _ rfl
  · rintro rfl
    rw [shuffle] at found
    cases found
    exact unfixed _ _ rfl

end Layout

namespace Opcode

theorem layout?_single {byte : UInt8} {l : Layout} (found : Layout.ofOpcode? byte = some l) :
    (single byte).layout? = some l := by
  have unled : ¬(byte = Layout.extendedLead ∨ byte = Layout.vectorLead) := by
    rintro (rfl | rfl)
    · rw [Layout.ofOpcode?_eq_none (by decide)] at found
      cases found
    · rw [Layout.ofOpcode?_eq_none (by decide)] at found
      cases found
  rw [layout?, if_neg unled, found]

theorem layout?_load (op : LoadOp) : (single op.opcode).layout? = some (.memArg fun arg => .plain (.load op arg)) := by
  rw [op.opcode_eq_assigned]
  exact layout?_single (Layout.ofOpcode?_of_load op.found_assigned)

theorem layout?_store (op : StoreOp) : (single op.opcode).layout? = some (.memArg fun arg => .plain (.store op arg)) := by
  rw [op.opcode_eq_assigned]
  exact layout?_single (Layout.ofOpcode?_of_store op.found_assigned)

theorem layout?_of_numeric {o : Opcode} {op : NumericOp} (found : NumericOp.ofAnyOpcode? o = some op) :
    o.layout? = some (.bare (.plain (.numeric op))) := by
  cases o with
  | single byte => exact layout?_single (Layout.ofOpcode?_of_numeric found)
  | extended sub => exact Layout.ofExtended?_of_saturating found
  | vector sub => cases found

theorem layout?_numeric (op : NumericOp) : op.opcode.layout? = some (.bare (.plain (.numeric op))) := by
  rw [op.opcode_eq_assigned]
  exact layout?_of_numeric op.found_assigned

end Opcode

end Binary

/-! ## Instructions that can be written -/

/-- What can be written so that it is read as it was: tables and lists are of the sizes that a reader allows, and the
immediates of a vector instruction are those of its opcode. -/
def Instruction.Encodable : Instruction → Prop
  | .block type | .loop type | .if_ type => type.Encodable
  | .brTable labels _ => labels.length ≤ 65536
  | .plain (.selectTyped tags) => tags.length ≤ 1000000
  | .plain op => op.Shaped
  | _ => True

namespace Binary

namespace Reads

/-- Plain instructions are read by the layout of their opcode. -/
theorem plain {op : Plain} (encodable : (Instruction.plain op).Encodable) :
    Reads Decoder.instruction (Encode.instruction (.plain op)) (.plain op) := by
  -- One case a layout. The opcodes of operations and of vector instructions are not fixed, so their layout is looked up.
  cases op with
  | nop => exact opcode rfl (pure _)
  | numeric op => exact opcode (Opcode.layout?_numeric op) (pure _)
  | call index | refFunc index | localGet index | localSet index | localTee index | globalGet index | globalSet index
  | tableGet index | tableSet index | elemDrop index | tableGrow index | tableSize index | tableFill index
  | dataDrop index =>
    refine opcode (l := .index _) rfl ?_
    exact (u32 index).lift.returning _
  | callIndirect first second | tableInit first second | tableCopy first second =>
    refine opcode (l := .twoIndices _) rfl ?_
    exact (u32 first).lift.bind ((u32 second).lift.returning _)
  | refNull tag =>
    refine opcode (l := .tag _) rfl ?_
    exact (byte tag).lift.returning _
  | selectTyped tags => exact opcode (l := .tags) rfl (Reads.tags encodable)
  | load op arg => exact opcode (Opcode.layout?_load op) ((memArg arg).map _)
  | store op arg => exact opcode (Opcode.layout?_store op) ((memArg arg).map _)
  | memorySize | memoryGrow | memoryFill =>
    refine opcode (l := .reserved 1 _) rfl ?_
    exact (reserved _ 1).returning _
  | memoryCopy =>
    refine opcode (l := .reserved 2 _) rfl ?_
    exact (reserved _ 2).returning _
  | memoryInit index =>
    refine opcode (l := .indexReserved _) rfl ?_
    exact (u32 index).lift.bind ((reserved _ 1).returning _)
  | i32Const value => exact opcode (l := .int32) rfl ((s32 value).lift.returning _)
  | i64Const value => exact opcode (l := .int64) rfl ((s64 value).lift.returning _)
  | f32Const bits => exact opcode (l := .float32) rfl ((word32 bits).lift.returning _)
  | f64Const bits => exact opcode (l := .float64) rfl ((word64 bits).lift.returning _)
  | v128Const bytes | shuffle bytes =>
    refine opcode (l := .sixteen _) rfl ?_
    exact (vector bytes).lift.returning _
  | vector sub =>
    obtain ⟨apart, params, results, signature⟩ := encodable
    have found : (Opcode.vector sub).layout? = some (.bare (.plain (.vector sub))) :=
      Layout.ofVector?_of_signature signature apart
    exact opcode found (pure _)
  | vectorLane sub lane =>
    have found : (Opcode.vector sub).layout? = some (.lane fun lane => .plain (.vectorLane sub lane)) := by
      rcases encodable with ⟨lanes, result, signature⟩ | ⟨lanes, operand, signature⟩
      · exact Layout.ofVector?_of_unfixed signature (by simp)
      · exact Layout.ofVector?_of_unfixed signature (by simp)
    exact opcode found ((byte lane).lift.returning _)
  | vectorMemory sub arg =>
    have found : (Opcode.vector sub).layout? = some (.memArg fun arg => .plain (.vectorMemory sub arg)) := by
      rcases encodable with ⟨natural, signature⟩ | ⟨natural, signature⟩
      · exact Layout.ofVector?_of_unfixed signature (by simp)
      · exact Layout.ofVector?_of_unfixed signature (by simp)
    exact opcode found ((memArg arg).map _)
  | vectorMemoryLane sub arg lane =>
    have found : (Opcode.vector sub).layout? =
        some (.memArgLane fun arg lane => .plain (.vectorMemoryLane sub arg lane)) := by
      rcases encodable with ⟨natural, lanes, signature⟩ | ⟨natural, lanes, signature⟩
      · exact Layout.ofVector?_of_unfixed signature (by simp)
      · exact Layout.ofVector?_of_unfixed signature (by simp)
    exact opcode found ((memArg arg).bind ((byte lane).lift.returning _))

/-- What can be written is read back, whatever follows it. -/
theorem encodable {i : Instruction} (encodable : i.Encodable) :
    Reads Decoder.instruction (Encode.instruction i) i := by
  cases i with
  | unreachable | else_ | end_ | return_ | refIsNull | drop | select => exact opcode rfl (pure _)
  | block type | loop type | if_ type =>
    refine opcode (l := .blockType _) rfl ?_
    exact (blockType encodable).map _
  | br label | brIf label =>
    refine opcode (l := .index _) rfl ?_
    exact (u32 label).lift.returning _
  | brTable labels default => exact opcode (l := .labels) rfl (Reads.labels default encodable)
  | plain op => exact plain encodable

end Reads

/-! ## Instructions that are read -/

namespace Decoder

variable {c d : Cursor} {i : Instruction}

/-- An instruction is read by the layout of the opcode that it is written with. -/
theorem layout_of_instruction (decoded : instruction c = .ok i d) :
    ∃ l e, i.opcode.layout? = some l ∧ layout l e = .ok i d := by
  obtain ⟨byte, _, -, rest⟩ := Outcome.bind_ok_iff.mp decoded
  obtain ⟨l, e, announced, rest⟩ := Outcome.bind_ok_iff.mp rest
  obtain ⟨o, found, writes⟩ := layoutAfter_ok announced
  obtain ⟨code, -⟩ := Recovers.layout writes e i d rest
  exact ⟨l, e, code ▸ found, rest⟩

/-- Whatever the bytes, what is read can be written. -/
theorem instruction_encodable (decoded : instruction c = .ok i d) : i.Encodable := by
  have shaped := Yields.instruction.result c i d decoded
  -- Where more is asked than the right shape, the opcode is fixed, and so is the layout that was read.
  obtain ⟨l, e, found, rest⟩ := layout_of_instruction decoded
  cases i with
  | block type | loop type | if_ type =>
    cases found
    rw [layout, map_eq_pure_bind] at rest
    obtain ⟨type, _, first, rest⟩ := Outcome.bind_ok_iff.mp rest
    cases rest
    exact blockType_encodable first
  | brTable labels default =>
    cases found
    obtain ⟨_, _, same, few⟩ := labels_ok rest
    cases same
    exact few
  | plain op =>
    cases op with
    | selectTyped tags =>
      cases found
      obtain ⟨_, same, few⟩ := tags_ok rest
      cases same
      exact few
    | _ => exact shaped
  | _ => trivial

/-- Instructions up to the end of the bytes. -/
def instructions : Decoder (List Instruction) := fun c =>
  if c.isEmpty then .ok [] c
  else
    match decoded : instruction c with
    | .error e d => .error e d
    | .ok i d =>
      have : d.rest.length < c.rest.length := instruction_shrinks decoded
      match instructions d with
      | .error e d => .error e d
      | .ok is d => .ok (i :: is) d
termination_by c => c.rest.length

theorem instructions_empty (pos : Nat) : instructions ⟨pos, []⟩ = .ok [] ⟨pos, []⟩ := by
  rw [instructions]
  rfl

theorem instructions_cons {is : List Instruction} {e : Cursor} (first : instruction c = .ok i d)
    (others : instructions d = .ok is e) : instructions c = .ok (i :: is) e := by
  have more : c.isEmpty = false := by
    have shrinks := instruction_shrinks first
    unfold Cursor.isEmpty
    cases bytes : c.rest with
    | nil => simp [bytes] at shrinks
    | cons b bs => rfl
  rw [instructions, if_neg (by simp [more])]
  split
  · rename_i failed
    rw [first] at failed
    cases failed
  · rename_i same
    rw [first] at same
    cases same
    rw [others]

theorem instructions_encode {is : List Instruction} (encodable : ∀ i ∈ is, i.Encodable) (pos : Nat) :
    instructions ⟨pos, is.flatMap Encode.instruction⟩ =
      .ok is ⟨pos + (is.flatMap Encode.instruction).length, []⟩ := by
  induction is generalizing pos with
  | nil => exact instructions_empty pos
  | cons i is ih =>
    obtain ⟨here, others⟩ := List.forall_mem_cons.mp encodable
    rw [List.flatMap_cons, List.length_append, ← Nat.add_assoc]
    exact instructions_cons (Reads.encodable here pos _) (ih others _)

/-- Decoding undoes encoding: an instruction that can be written is read back from its bytes, and not a byte more is
taken; so is a list of them, also where only the end of the bytes tells how many there are. Nothing else is ever read. -/
theorem instruction_inverts_encode :
    ((∀ op : LoadOp, op.opcode = op.assigned) ∧ (∀ op : StoreOp, op.opcode = op.assigned) ∧
      ∀ op : NumericOp, op.opcode = op.assigned) ∧
    (∀ i : Instruction, i.Encodable → ∀ (pos : Nat) (rest : List UInt8),
      instruction ⟨pos, Encode.instruction i ++ rest⟩ = .ok i ⟨pos + (Encode.instruction i).length, rest⟩) ∧
    (∀ is : List Instruction, (∀ i ∈ is, i.Encodable) → ∀ pos : Nat,
      instructions ⟨pos, is.flatMap Encode.instruction⟩ =
          .ok is ⟨pos + (is.flatMap Encode.instruction).length, []⟩ ∧
        ∀ rest : List UInt8, repeated instruction is.length ⟨pos, is.flatMap Encode.instruction ++ rest⟩ =
          .ok is ⟨pos + (is.flatMap Encode.instruction).length, rest⟩) ∧
    ∀ (c : Cursor) (i : Instruction) (d : Cursor), instruction c = .ok i d → i.Encodable := by
  refine ⟨⟨LoadOp.opcode_eq_assigned, StoreOp.opcode_eq_assigned, NumericOp.opcode_eq_assigned⟩,
    fun _ => Reads.encodable, fun is encodable pos => ⟨instructions_encode encodable pos, ?_⟩,
    fun _ _ _ => instruction_encodable⟩
  exact Reads.repeated (fun i member => Reads.encodable (encodable i member)) pos

end Decoder

end Binary

end Wasm
