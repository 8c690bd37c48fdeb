import Wasm.Proofs.Binary.Telling
import Wasm.Proofs.Encoding.Reading

/-! # Encoding instructions

An instruction is written as its opcode and then its immediates. Whatever instruction can be decoded at all, from
whatever bytes, is written in a way that decodes to it: so it is shown by going through the layouts that an opcode can
announce, and not through the instructions.
-/

namespace Wasm

namespace Binary

/-- What announces an instruction: one byte, or a lead byte and a secondary opcode. -/
inductive Opcode where
  | single (byte : UInt8)
  | extended (sub : UInt32)
  | vector (sub : UInt32)

end Binary

open Binary

/-- The tag of a value type is told from the other block types. -/
def BlockType.Encodable : BlockType → Prop
  | .value tag => 0x41 ≤ tag ∧ tag ≤ 0x7f
  | .empty | .indexed _ => True

namespace LoadOp

def opcode (op : LoadOp) : UInt8 := (firstOpcode + inOrder.idxOf op).toUInt8

end LoadOp

namespace StoreOp

def opcode (op : StoreOp) : UInt8 := (firstOpcode + inOrder.idxOf op).toUInt8

end StoreOp

namespace NumericOp

def opcode (op : NumericOp) : Opcode :=
  if op ∈ inOrder then .single (firstOpcode + inOrder.idxOf op).toUInt8
  else .extended (saturating.idxOf op).toUInt32

end NumericOp

namespace Plain

def opcode : Plain → Opcode
  | nop => .single 0x01
  | call _ => .single 0x10
  | callIndirect .. => .single 0x11
  | refNull _ => .single 0xd0
  | refFunc _ => .single 0xd2
  | selectTyped _ => .single 0x1c
  | localGet _ => .single 0x20
  | localSet _ => .single 0x21
  | localTee _ => .single 0x22
  | globalGet _ => .single 0x23
  | globalSet _ => .single 0x24
  | tableGet _ => .single 0x25
  | tableSet _ => .single 0x26
  | tableInit .. => .extended 0x0c
  | elemDrop _ => .extended 0x0d
  | tableCopy .. => .extended 0x0e
  | tableGrow _ => .extended 0x0f
  | tableSize _ => .extended 0x10
  | tableFill _ => .extended 0x11
  | load op _ => .single op.opcode
  | store op _ => .single op.opcode
  | memorySize => .single 0x3f
  | memoryGrow => .single 0x40
  | memoryInit _ => .extended 0x08
  | dataDrop _ => .extended 0x09
  | memoryCopy => .extended 0x0a
  | memoryFill => .extended 0x0b
  | i32Const _ => .single 0x41
  | i64Const _ => .single 0x42
  | f32Const _ => .single 0x43
  | f64Const _ => .single 0x44
  | numeric op => op.opcode
  | v128Const _ => .vector VectorOp.constOpcode
  | shuffle _ => .vector VectorOp.shuffleOpcode
  | vectorMemory sub _ | vectorMemoryLane sub .. | vectorLane sub _ | vector sub => .vector sub

end Plain

namespace Instruction

def opcode : Instruction → Opcode
  | unreachable => .single 0x00
  | block _ => .single 0x02
  | loop _ => .single 0x03
  | if_ _ => .single 0x04
  | else_ => .single 0x05
  | end_ => .single 0x0b
  | br _ => .single 0x0c
  | brIf _ => .single 0x0d
  | brTable .. => .single 0x0e
  | return_ => .single 0x0f
  | refIsNull => .single 0xd1
  | drop => .single 0x1a
  | select => .single 0x1b
  | plain op => op.opcode

end Instruction

namespace Binary

namespace Encode

def opcode : Opcode → List UInt8
  | .single byte => [byte]
  | .extended sub => Layout.extendedLead :: u32 sub
  | .vector sub => Layout.vectorLead :: u32 sub

def blockType : BlockType → List UInt8
  | .empty => [0x40]
  | .value tag => [tag]
  | .indexed type => signed type.toNat

def memArg (arg : MemArg) : List UInt8 := u32 arg.align ++ u32 arg.offset

def plainImmediates : Plain → List UInt8
  | .nop | .numeric _ | .vector _ => []
  | .call index | .refFunc index | .localGet index | .localSet index | .localTee index | .globalGet index
  | .globalSet index | .tableGet index | .tableSet index | .elemDrop index | .tableGrow index | .tableSize index
  | .tableFill index | .dataDrop index => u32 index
  | .callIndirect first second | .tableInit first second | .tableCopy first second => u32 first ++ u32 second
  | .refNull tag => [tag]
  | .selectTyped tags => bytes tags
  | .load _ arg | .store _ arg | .vectorMemory _ arg => memArg arg
  | .vectorMemoryLane _ arg lane => memArg arg ++ [lane]
  | .vectorLane _ lane => [lane]
  | .memorySize | .memoryGrow | .memoryFill => [0x00]
  | .memoryCopy => [0x00, 0x00]
  | .memoryInit index => u32 index ++ [0x00]
  | .i32Const value => signed value.toInt
  | .i64Const value => signed value.toInt
  | .f32Const bits => littleEndian 4 bits.toNat
  | .f64Const bits => littleEndian 8 bits.toNat
  | .v128Const sixteen | .shuffle sixteen => sixteen.toList

/-- What follows the opcode. -/
def immediates : Instruction → List UInt8
  | .block type | .loop type | .if_ type => blockType type
  | .br label | .brIf label => u32 label
  | .brTable labels default => vector u32 labels ++ u32 default
  | .plain op => plainImmediates op
  | .unreachable | .else_ | .end_ | .return_ | .refIsNull | .drop | .select => []

def instruction (i : Instruction) : List UInt8 := opcode i.opcode ++ immediates i

def expression (e : Expr) : List UInt8 := e.toList.flatMap instruction

end Encode

end Binary

/-! ## Opcodes -/

/-- What stands at a place of a list without repetitions is found there. -/
theorem idxOf_of_getElem? {α : Type} [DecidableEq α] {xs : List α} (once : xs.Nodup) {i : Nat} {a : α}
    (found : xs.toArray[i]? = some a) : xs.idxOf a = i := by
  rw [List.getElem?_toArray] at found
  obtain ⟨inside, rfl⟩ := List.getElem?_eq_some_iff.mp found
  exact once.idxOf_getElem i inside

/-- The opcode by which an operation was found in a table that starts at `first`. -/
theorem opcode_of_table {α : Type} [DecidableEq α] {xs : List α} (once : xs.Nodup) {first : Nat} {opcode : UInt8}
    {a : α} (found : (if first ≤ opcode.toNat then xs.toArray[opcode.toNat - first]? else none) = some a) :
    (first + xs.idxOf a).toUInt8 = opcode := by
  split at found
  · rename_i after
    rw [idxOf_of_getElem? once found, Nat.add_sub_cancel' after]
    exact UInt8.ofNat_toNat
  · cases found

theorem LoadOp.opcode_of_found {opcode : UInt8} {op : LoadOp} (found : ofOpcode? opcode = some op) :
    op.opcode = opcode := opcode_of_table (by decide) found

theorem StoreOp.opcode_of_found {opcode : UInt8} {op : StoreOp} (found : ofOpcode? opcode = some op) :
    op.opcode = opcode := opcode_of_table (by decide) found

theorem NumericOp.opcode_of_found {opcode : UInt8} {op : NumericOp} (found : ofOpcode? opcode = some op) :
    op.opcode = .single opcode := by
  have code : (firstOpcode + inOrder.idxOf op).toUInt8 = opcode := opcode_of_table (by decide +kernel) found
  have member : op ∈ inOrder := by
    unfold ofOpcode? table at found
    split at found
    · rw [List.getElem?_toArray] at found
      exact List.mem_of_getElem? found
    · cases found
  rw [NumericOp.opcode, if_pos member, code]

theorem NumericOp.opcode_of_saturating {opcode : UInt32} {op : NumericOp}
    (found : ofSaturatingOpcode? opcode = some op) : op.opcode = .extended opcode := by
  have apart : ∀ op ∈ saturating, op ∉ inOrder := by decide +kernel
  have member : op ∈ saturating := by
    unfold ofSaturatingOpcode? saturatingTable at found
    rw [List.getElem?_toArray] at found
    exact List.mem_of_getElem? found
  rw [NumericOp.opcode, if_neg (apart op member), idxOf_of_getElem? (by decide) found]
  exact congrArg _ UInt32.ofNat_toNat

namespace Binary

/-! ## Immediates -/

section Decoded

variable {α : Type} {c d : Cursor}

theorem Reader.count_le {n : Nat} (decoded : Reader.count c = .ok n d) : n ≤ maxVectorEntries := by
  obtain ⟨k, e, -, rest⟩ := Outcome.bind_ok_iff.mp decoded
  obtain ⟨_, _, -, rest⟩ := Outcome.bind_ok_iff.mp rest
  split at rest
  · rename_i few
    cases rest
    simp only [Bool.and_eq_true, decide_eq_true_eq] at few
    exact few.1
  · cases rest

theorem Reader.take_length {n : Nat} {bs : List UInt8} (decoded : Reader.take n c = .ok bs d) : bs.length = n := by
  unfold Reader.take at decoded
  split at decoded
  · rename_i enough
    cases decoded
    exact List.length_take_of_le ((holdsAtLeast_iff _ _).mp enough)
  · cases decoded

theorem Decoder.repeatedOnto_length {entry : Decoder α} {n : Nat} {before xs : List α}
    (decoded : Decoder.repeatedOnto entry n before c = .ok xs d) : xs.length = before.length + n := by
  induction n generalizing before c with
  | zero =>
    cases decoded
    exact List.length_reverse
  | succ n ih =>
    unfold Decoder.repeatedOnto at decoded
    cases first : entry c with
    | ok x e =>
      rw [first] at decoded
      rw [ih decoded, List.length_cons]
      omega
    | error e f =>
      rw [first] at decoded
      cases decoded

theorem Reader.signedAfter_eq (size : Nat) (first : UInt8) (pos : Nat) (rest : List UInt8) :
    Reader.signedAfter size first ⟨pos + 1, rest⟩ =
      Leb128.digits (Leb128.signedDigit size) (first :: rest) pos 0 0 := by
  unfold Reader.signedAfter
  rw [Leb128.digits]
  cases Leb128.signedDigit size 0 0 first <;> rfl

end Decoded

/-- Bytes that read as a negative number by themselves. -/
theorem masked_bounds {b : UInt8} (masked : b &&& 0xc0 = 0x40) : 64 ≤ b.toNat ∧ b.toNat < 128 := by
  have all : ∀ n < 256, n &&& 192 = 64 → 64 ≤ n ∧ n < 128 := by decide +kernel
  refine all b.toNat b.toNat_lt ?_
  have same := congrArg UInt8.toNat masked
  rwa [UInt8.toNat_and] at same

/-- Each of these bytes reads as a negative number by itself. -/
theorem masked_of_bounds {b : UInt8} (low : 64 ≤ b.toNat) (high : b.toNat < 128) : b &&& 0xc0 = 0x40 := by
  have all : ∀ n < 256, 64 ≤ n → n < 128 → n &&& 192 = 64 := by decide +kernel
  apply UInt8.toNat_inj.mp
  rw [UInt8.toNat_and]
  exact all b.toNat b.toNat_lt low high

/-- The first byte of a number that is not negative does not read as a negative number of one byte. -/
theorem Encode.signed_natCast (n : Nat) :
    ∃ b more, Encode.signed n = b :: more ∧ (b.toNat < 64 ∨ 128 ≤ b.toNat) := by
  rw [Encode.signed]
  split
  · refine ⟨_, [], rfl, .inl ?_⟩
    rw [Nat.toUInt8, UInt8.toNat_ofNat']
    omega
  · refine ⟨_, _, rfl, .inr ?_⟩
    rw [Nat.toUInt8, UInt8.toNat_ofNat']
    omega

namespace Decoder

variable {c d : Cursor} {i : Instruction}

theorem blockType_encodable {type : BlockType} (decoded : blockType c = .ok type d) : type.Encodable := by
  obtain ⟨first, e, -, rest⟩ := Outcome.bind_ok_iff.mp decoded
  split at rest
  · cases rest
    trivial
  · rename_i unmarked
    split at rest
    · rename_i tagged
      cases rest
      have bounds := masked_bounds tagged
      have other : first.toNat ≠ 64 := fun same => unmarked (UInt8.toNat_inj.mp same)
      exact ⟨UInt8.le_iff_toNat_le.mpr (show 65 ≤ first.toNat by omega),
        UInt8.le_iff_toNat_le.mpr (show first.toNat ≤ 127 by omega)⟩
    · obtain ⟨index, _, -, rest⟩ := Outcome.bind_ok_iff.mp rest
      split at rest
      · cases rest
      · cases rest
        trivial

/-- A branch table that was decoded is not too long. -/
theorem labels_ok (decoded : labels c = .ok i d) :
    ∃ targets default, i = .brTable targets default ∧ targets.length ≤ maxLabels := by
  obtain ⟨count, _, -, rest⟩ := Outcome.bind_ok_iff.mp decoded
  split at rest
  · cases rest
  · rename_i few
    obtain ⟨targets, _, entries, rest⟩ := Outcome.bind_ok_iff.mp rest
    obtain ⟨default, _, -, rest⟩ := Outcome.bind_ok_iff.mp rest
    cases rest
    have length : targets.length = 0 + count := repeatedOnto_length entries
    exact ⟨targets, default, rfl, by omega⟩

/-- Nor is a list of tags. -/
theorem tags_ok (decoded : layout .tags c = .ok i d) :
    ∃ tags, i = .plain (.selectTyped tags) ∧ tags.length ≤ Reader.maxVectorEntries := by
  obtain ⟨count, _, counted, rest⟩ := Outcome.bind_ok_iff.mp decoded
  obtain ⟨tags, _, taken, rest⟩ := Outcome.bind_ok_iff.mp rest
  cases rest
  have few := Reader.count_le (lift_ok_iff.mp counted)
  have length := Reader.take_length (lift_ok_iff.mp taken)
  exact ⟨tags, rfl, by omega⟩

end Decoder

namespace Reads

theorem memArg (arg : MemArg) : Reads Decoder.memArg (Encode.memArg arg) arg :=
  (u32 arg.align).lift.bind ((u32 arg.offset).lift.returning _)

theorem blockType_indexed (type : UInt32) :
    Reads Decoder.blockType (Encode.blockType (.indexed type)) (.indexed type) := by
  obtain ⟨b, more, split, outside⟩ := Encode.signed_natCast type.toNat
  have unmarked : b ≠ 0x40 := by
    rintro rfl
    exact absurd outside (by decide)
  have untagged : b &&& 0xc0 ≠ 0x40 := fun masked => by
    have := masked_bounds masked
    omega
  intro pos rest
  have index : Reader.signedAfter 33 b ⟨pos + 1, more ++ rest⟩ =
      .ok (type.toNat : Int) ⟨pos + (b :: more).length, rest⟩ := by
    rw [Reader.signedAfter_eq, ← List.cons_append, ← split,
      Leb128.digits_signed (by decide) (by omega) (Int.ofNat_lt.mpr type.toNat_lt)]
    simp
  rw [Encode.blockType, split]
  refine Outcome.bind_ok_iff.mpr ⟨b, ⟨pos + 1, more ++ rest⟩, rfl, ?_⟩
  rw [if_neg unmarked, if_neg untagged]
  refine Outcome.bind_ok_iff.mpr ⟨_, _, Decoder.lift_ok_iff.mpr index, ?_⟩
  rw [if_neg (by omega)]
  simp

theorem blockType {type : BlockType} (encodable : type.Encodable) :
    Reads Decoder.blockType (Encode.blockType type) type := by
  cases type with
  | empty => exact fun _ _ => rfl
  | indexed type => exact blockType_indexed type
  | value tag =>
    have low : 0x41 ≤ tag.toNat := UInt8.le_iff_toNat_le.mp encodable.1
    have high : tag.toNat ≤ 0x7f := UInt8.le_iff_toNat_le.mp encodable.2
    have unmarked : tag ≠ 0x40 := by
      rintro rfl
      exact absurd low (by decide)
    refine (byte tag).lift.bind_nil ?_
    rw [if_neg unmarked, if_pos (masked_of_bounds (by omega) (by omega))]
    exact pure _

theorem reserved (mnemonic : String) (count : Nat) :
    Reads (Decoder.reserved mnemonic count) (List.replicate count 0x00) () := by
  induction count with
  | zero => exact pure ()
  | succ count ih =>
    rw [List.replicate_succ]
    refine (byte 0x00).lift.bind ?_
    rw [if_pos rfl]
    exact ih

theorem labels {labels : List UInt32} (default : UInt32) (few : labels.length ≤ Decoder.maxLabels) :
    Reads Decoder.labels (Encode.vector Encode.u32 labels ++ Encode.u32 default) (.brTable labels default) := by
  have enough : labels.length ≤ (labels.flatMap Encode.u32).length := length_le_flatMap fun x _ => Encode.u32_ne_nil x
  rw [Encode.vector, List.append_assoc]
  refine counted (Nat.le_trans few (by decide)) (by rw [List.length_append]; omega) ?_
  rw [if_neg (by omega)]
  exact (repeated fun x _ => (u32 x).lift).bind ((u32 default).lift.returning _)

theorem tags {tags : List UInt8} (few : tags.length ≤ Reader.maxVectorEntries) :
    Reads (Decoder.layout .tags) (Encode.bytes tags) (.plain (.selectTyped tags)) :=
  counted few (Nat.le_refl _) ((take tags).lift.returning _)

end Reads

/-! ## Layouts -/

namespace Layout

/-- The instructions of a layout have this opcode, and their immediates are written as the layout says. -/
def Writes (o : Opcode) : Layout → Prop
  | bare i => i.opcode = o ∧ Encode.immediates i = []
  | blockType make => ∀ t, (make t).opcode = o ∧ Encode.immediates (make t) = Encode.blockType t
  | index make => ∀ x, (make x).opcode = o ∧ Encode.immediates (make x) = Encode.u32 x
  | twoIndices make => ∀ x y, (make x y).opcode = o ∧ Encode.immediates (make x y) = Encode.u32 x ++ Encode.u32 y
  | labels => ∀ labels default, (Instruction.brTable labels default).opcode = o
  | tag make | lane make => ∀ b, (make b).opcode = o ∧ Encode.immediates (make b) = [b]
  | tags => ∀ tags, (Instruction.plain (.selectTyped tags)).opcode = o
  | memArg make => ∀ arg, (make arg).opcode = o ∧ Encode.immediates (make arg) = Encode.memArg arg
  | memArgLane make =>
    ∀ arg b, (make arg b).opcode = o ∧ Encode.immediates (make arg b) = Encode.memArg arg ++ [b]
  | reserved count i => i.opcode = o ∧ Encode.immediates i = List.replicate count 0x00
  | indexReserved make => ∀ x, (make x).opcode = o ∧ Encode.immediates (make x) = Encode.u32 x ++ [0x00]
  | int32 => ∀ z, (Instruction.plain (.i32Const z)).opcode = o
  | int64 => ∀ z, (Instruction.plain (.i64Const z)).opcode = o
  | float32 => ∀ bits, (Instruction.plain (.f32Const bits)).opcode = o
  | float64 => ∀ bits, (Instruction.plain (.f64Const bits)).opcode = o
  | sixteen make => ∀ v, (make v).opcode = o ∧ Encode.immediates (make v) = v.toList

end Layout

/-- What the decoder gives has this opcode, and the decoder reads its immediates back. -/
def Recovers (m : Decoder Instruction) (o : Opcode) : Prop :=
  ∀ c i d, m c = .ok i d → i.opcode = o ∧ Reads m (Encode.immediates i) i

namespace Recovers

variable {α : Type} {m : Decoder α} {encode : α → List UInt8} {make : α → Instruction} {o : Opcode}

theorem returning (back : ∀ c a d, m c = .ok a d → Reads m (encode a) a)
    (same : ∀ a, (make a).opcode = o ∧ Encode.immediates (make a) = encode a) :
    Recovers (m >>= fun a => pure (make a)) o := by
  intro c i d decoded
  obtain ⟨a, e, first, rest⟩ := Outcome.bind_ok_iff.mp decoded
  cases rest
  refine ⟨(same a).1, ?_⟩
  rw [(same a).2]
  exact (back c a _ first).returning make

theorem map (back : ∀ c a d, m c = .ok a d → Reads m (encode a) a)
    (same : ∀ a, (make a).opcode = o ∧ Encode.immediates (make a) = encode a) : Recovers (make <$> m) o :=
  returning back same

/-- What was written as the layout says is read back; one case a layout. -/
theorem layout {l : Layout} (writes : l.Writes o) : Recovers (Decoder.layout l) o := by
  -- Only a block type, a branch table and a list of tags are restricted; any other immediates are read back as they are.
  cases l with
  | bare i =>
    intro c _ d decoded
    cases decoded
    exact ⟨writes.1, writes.2 ▸ Reads.pure i⟩
  | blockType make => exact map (fun _ _ _ decoded => Reads.blockType (Decoder.blockType_encodable decoded)) writes
  | index make => exact returning (fun _ x _ _ => (Reads.u32 x).lift) writes
  | twoIndices make =>
    intro c _ d decoded
    obtain ⟨first, _, -, rest⟩ := Outcome.bind_ok_iff.mp decoded
    obtain ⟨second, _, -, rest⟩ := Outcome.bind_ok_iff.mp rest
    cases rest
    refine ⟨(writes first second).1, ?_⟩
    rw [(writes first second).2]
    exact (Reads.u32 first).lift.bind ((Reads.u32 second).lift.returning _)
  | labels =>
    intro c _ d decoded
    obtain ⟨targets, default, rfl, few⟩ := Decoder.labels_ok decoded
    exact ⟨writes targets default, Reads.labels default few⟩
  | tag make | lane make => exact returning (fun _ b _ _ => (Reads.byte b).lift) writes
  | tags =>
    intro c _ d decoded
    obtain ⟨tags, rfl, few⟩ := Decoder.tags_ok decoded
    exact ⟨writes tags, Reads.tags few⟩
  | memArg make => exact map (fun _ arg _ _ => Reads.memArg arg) writes
  | memArgLane make =>
    intro c _ d decoded
    obtain ⟨arg, _, -, rest⟩ := Outcome.bind_ok_iff.mp decoded
    obtain ⟨lane, _, -, rest⟩ := Outcome.bind_ok_iff.mp rest
    cases rest
    refine ⟨(writes arg lane).1, ?_⟩
    rw [(writes arg lane).2]
    exact (Reads.memArg arg).bind ((Reads.byte lane).lift.returning _)
  | reserved count i =>
    have same (_ : Unit) : i.opcode = o ∧ Encode.immediates i = List.replicate count 0x00 := writes
    exact returning (fun _ _ _ _ => Reads.reserved i.mnemonic count) same
  | indexReserved make =>
    intro c _ d decoded
    obtain ⟨index, _, -, rest⟩ := Outcome.bind_ok_iff.mp decoded
    obtain ⟨_, _, -, rest⟩ := Outcome.bind_ok_iff.mp rest
    cases rest
    refine ⟨(writes index).1, ?_⟩
    rw [(writes index).2]
    exact (Reads.u32 index).lift.bind ((Reads.reserved _ 1).returning _)
  | int32 => exact returning (fun _ z _ _ => (Reads.s32 z).lift) fun z => ⟨writes z, rfl⟩
  | int64 => exact returning (fun _ z _ _ => (Reads.s64 z).lift) fun z => ⟨writes z, rfl⟩
  | float32 => exact returning (fun _ bits _ _ => (Reads.word32 bits).lift) fun bits => ⟨writes bits, rfl⟩
  | float64 => exact returning (fun _ bits _ _ => (Reads.word64 bits).lift) fun bits => ⟨writes bits, rfl⟩
  | sixteen make => exact returning (fun _ v _ _ => (Reads.vector v).lift) writes

end Recovers

namespace Layout

theorem writes_of_opcode {opcode : UInt8} {l : Layout} (found : ofOpcode? opcode = some l) :
    l.Writes (.single opcode) := by
  unfold ofOpcode? at found
  split at found
  rotate_right
  · -- an operation of one of the tables
    split at found
    · cases found
      exact fun arg => ⟨congrArg Opcode.single (LoadOp.opcode_of_found ‹_›), rfl⟩
    · cases found
      exact fun arg => ⟨congrArg Opcode.single (StoreOp.opcode_of_found ‹_›), rfl⟩
    · cases found
      exact ⟨NumericOp.opcode_of_found ‹_›, rfl⟩
    · cases found
  all_goals
    cases found
    simp [Writes, Instruction.opcode, Plain.opcode, Encode.immediates, Encode.plainImmediates]

theorem writes_of_extended {sub : UInt32} {l : Layout} (found : ofExtended? sub = some l) :
    l.Writes (.extended sub) := by
  unfold ofExtended? at found
  split at found
  rotate_right
  · obtain ⟨op, saturating, rfl⟩ := Option.map_eq_some_iff.mp found
    exact ⟨NumericOp.opcode_of_saturating saturating, rfl⟩
  all_goals
    cases found
    simp [Writes, Instruction.opcode, Plain.opcode, Encode.immediates, Encode.plainImmediates]

theorem writes_of_vector {sub : UInt32} {l : Layout} (found : ofVector? sub = some l) :
    l.Writes (.vector sub) := by
  unfold ofVector? at found
  split at found
  · subst sub
    cases found
    exact fun v => ⟨rfl, rfl⟩
  · split at found
    · subst sub
      cases found
      exact fun v => ⟨rfl, rfl⟩
    · obtain ⟨signature, -, rfl⟩ := Option.map_eq_some_iff.mp found
      cases signature <;> simp [Writes, Instruction.opcode, Plain.opcode, Encode.immediates, Encode.plainImmediates]

end Layout

/-! ## Instructions and expressions -/

/-- The layout that an opcode announces. -/
def Opcode.layout? : Opcode → Option Layout
  | single byte => if byte = Layout.extendedLead ∨ byte = Layout.vectorLead then none else Layout.ofOpcode? byte
  | extended sub => Layout.ofExtended? sub
  | vector sub => Layout.ofVector? sub

theorem Reads.opcode {o : Opcode} {l : Layout} (found : o.layout? = some l) {ys : List UInt8} {i : Instruction}
    (next : Reads (Decoder.layout l) ys i) : Reads Decoder.instruction (Encode.opcode o ++ ys) i := by
  cases o with
  | single byte =>
    rw [Opcode.layout?] at found
    split at found
    · cases found
    · rename_i single
      have announced : Reads (Decoder.layoutAfter byte) [] l := by
        unfold Decoder.layoutAfter
        rw [if_neg fun lead => single (.inl lead), if_neg fun lead => single (.inr lead), found]
        exact Reads.pure l
      exact (Reads.byte byte).lift.bind (announced.bind next)
  | extended sub =>
    have announced : Reads (Decoder.layoutAfter Layout.extendedLead) (Encode.u32 sub) l := by
      unfold Decoder.layoutAfter
      rw [if_pos rfl]
      refine (Reads.u32 sub).lift.bind_nil ?_
      rw [show Layout.ofExtended? sub = some l from found]
      exact Reads.pure l
    exact (Reads.byte _).lift.bind (announced.bind next)
  | vector sub =>
    have announced : Reads (Decoder.layoutAfter Layout.vectorLead) (Encode.u32 sub) l := by
      unfold Decoder.layoutAfter
      rw [if_neg (by decide), if_pos rfl]
      refine (Reads.u32 sub).lift.bind_nil ?_
      rw [show Layout.ofVector? sub = some l from found]
      exact Reads.pure l
    exact (Reads.byte _).lift.bind (announced.bind next)

/-- The layout that was decoded is announced by an opcode, whose instructions are written as the layout says. -/
theorem Decoder.layoutAfter_ok {opcode : UInt8} {l : Layout} {c d : Cursor}
    (decoded : Decoder.layoutAfter opcode c = .ok l d) : ∃ o : Opcode, o.layout? = some l ∧ l.Writes o := by
  unfold Decoder.layoutAfter at decoded
  split at decoded
  · obtain ⟨sub, e, -, rest⟩ := Outcome.bind_ok_iff.mp decoded
    cases found : Layout.ofExtended? sub with
    | none => rw [found] at rest; cases rest
    | some l => rw [found] at rest; cases rest; exact ⟨.extended sub, found, Layout.writes_of_extended found⟩
  · split at decoded
    · obtain ⟨sub, _, -, rest⟩ := Outcome.bind_ok_iff.mp decoded
      cases found : Layout.ofVector? sub with
      | none => rw [found] at rest; cases rest
      | some l => rw [found] at rest; cases rest; exact ⟨.vector sub, found, Layout.writes_of_vector found⟩
    · rename_i unextended unled
      cases found : Layout.ofOpcode? opcode with
      | none => rw [found] at decoded; cases decoded
      | some l =>
        rw [found] at decoded
        cases decoded
        refine ⟨.single opcode, ?_, Layout.writes_of_opcode found⟩
        rw [Opcode.layout?, if_neg (not_or.mpr ⟨unextended, unled⟩), found]

/-- An instruction that can be decoded from some bytes is decoded from the bytes it is written as. -/
theorem Reads.instruction {i : Instruction} {c d : Cursor} (decoded : Decoder.instruction c = .ok i d) :
    Reads Decoder.instruction (Encode.instruction i) i := by
  obtain ⟨byte, _, -, rest⟩ := Outcome.bind_ok_iff.mp decoded
  obtain ⟨l, e, announced, rest⟩ := Outcome.bind_ok_iff.mp rest
  obtain ⟨o, found, writes⟩ := Decoder.layoutAfter_ok announced
  obtain ⟨code, back⟩ := Recovers.layout writes e i d rest
  rw [Encode.instruction, code]
  exact Reads.opcode found back

end Binary

/-- With `depth` blocks open, the last of the instructions closes the expression and none before it does. -/
def Closes : (depth : Nat) → List Instruction → Prop
  | _, [] => False
  | depth, i :: rest =>
    match i.nesting depth with
    | some depth => Closes depth rest
    | none => rest = []

/-- An expression of instructions that can be decoded, closed by its last one. -/
structure Expr.Writable (e : Expr) : Prop where
  decodable : ∀ i ∈ e, ∃ c d, Decoder.instruction c = .ok i d
  closed : Closes 0 e.toList

namespace Binary

theorem Encode.instruction_ne_nil (i : Instruction) : Encode.instruction i ≠ [] := by
  unfold Encode.instruction Encode.opcode
  cases i.opcode <;> simp

theorem Encode.expression_ne_nil {e : Expr} (writable : e.Writable) : Encode.expression e ≠ [] := by
  have closed := writable.closed
  unfold Encode.expression
  cases instructions : e.toList with
  | nil => rw [instructions] at closed; exact closed.elim
  | cons i rest => simp [Encode.instruction_ne_nil i]

namespace Reads

theorem expressionOnto {depth : Nat} {is : List Instruction} (before : Expr)
    (decodable : ∀ i ∈ is, ∃ c d, Decoder.instruction c = .ok i d) (closed : Closes depth is) :
    Reads (Decoder.expressionOnto depth before) (is.flatMap Encode.instruction) (before ++ is.toArray) := by
  induction is generalizing depth before with
  | nil => exact closed.elim
  | cons i is ih =>
    obtain ⟨c, d, decoded⟩ := decodable i List.mem_cons_self
    intro pos rest
    have first := instruction decoded pos (is.flatMap Encode.instruction ++ rest)
    rw [List.flatMap_cons, List.append_assoc, Decoder.expressionOnto_ok first, List.length_append, ← Nat.add_assoc]
    unfold Closes at closed
    cases nested : i.nesting depth with
    | none =>
      rw [nested] at closed
      subst closed
      simp
    | some inner =>
      rw [nested] at closed
      dsimp only
      rw [ih (before.push i) (fun j member => decodable j (List.mem_cons_of_mem i member)) closed]
      simp

theorem expression {e : Expr} (writable : e.Writable) : Reads Decoder.expression (Encode.expression e) e := by
  have read := expressionOnto #[] (fun i member => writable.decodable i (Array.mem_toList_iff.mp member))
    writable.closed
  rw [Array.empty_append, Array.toArray_toList] at read
  exact read

end Reads

end Binary

end Wasm
