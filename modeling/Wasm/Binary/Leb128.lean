import Wasm.Binary.Cursor

/-! # Integers of variable length

An integer is written seven bits a byte, lowest first; every byte but the last has its top bit set. A
signed integer takes its sign from the highest bit of the last byte. An encoding may be padded, but only
as long as each of its bytes starts below the width of the integer, and the bits past the width must be
zero or, for a signed integer, copies of the sign.
-/

namespace Wasm.Binary

namespace Leb128

/-- The seven bits of the number that a byte carries. -/
def payload (b : UInt8) : Nat := b.toNat % 128

/-- Whether another byte follows. -/
def continues (b : UInt8) : Bool := 128 ≤ b.toNat

/-- Whether the sign bit of a last byte is set. -/
def negative (b : UInt8) : Bool := 64 ≤ payload b

/-- What a byte adds to the number read so far. -/
inductive Digit (α : Type) where
  | fault (f : ReadFault)
  | last (value : α)
  | more (sum : Nat)

/-- The byte at bit `shift` of an unsigned integer of `size` bits, after bytes that sum to `sum`. -/
def unsignedDigit (size shift sum : Nat) (b : UInt8) : Digit Nat :=
  if size ≤ shift then .fault .integerTooLong
  else if size < shift + 7 ∧ payload b >>> (size - shift) ≠ 0 then .fault .integerTooLarge
  else
    let sum := sum + (payload b <<< shift)
    if continues b then .more sum else .last sum

/-- The bits of a byte from the sign bit of an integer upwards are all zero or all one. -/
def copiesSign (size shift : Nat) (b : UInt8) : Bool :=
  let upper := payload b >>> (size - shift - 1)
  upper == 0 || upper == 127 >>> (size - shift - 1)

/-- The byte at bit `shift` of a signed integer of `size` bits, after bytes that sum to `sum`. -/
def signedDigit (size shift sum : Nat) (b : UInt8) : Digit Int :=
  if size ≤ shift then .fault .integerTooLong
  else if size < shift + 7 ∧ copiesSign size shift b = false then .fault .integerTooLarge
  else
    let sum := sum + (payload b <<< shift)
    if continues b then .more sum
    else .last (if negative b then (sum : Int) - ((1 <<< (shift + 7) : Nat) : Int) else (sum : Int))

variable {α : Type}

/-- Reads bytes from bit `shift` on until one is the last. -/
def digits (digit : (shift sum : Nat) → UInt8 → Digit α) :
    (bytes : List UInt8) → (pos shift sum : Nat) → EStateM.Result ReadFault Cursor α
  | [], pos, _, _ => .error .unexpectedEnd ⟨pos, []⟩
  | b :: rest, pos, shift, sum =>
    match digit shift sum b with
    | .fault f => .error f ⟨pos + 1, rest⟩
    | .last value => .ok value ⟨pos + 1, rest⟩
    | .more sum => digits digit rest (pos + 1) (shift + 7) sum

end Leb128

open Leb128

namespace Reader

def unsigned (size : Nat) : Reader Nat := fun c => digits (unsignedDigit size) c.rest c.pos 0 0

def signed (size : Nat) : Reader Int := fun c => digits (signedDigit size) c.rest c.pos 0 0

/-- A signed integer whose first byte was taken before. -/
def signedAfter (size : Nat) (first : UInt8) : Reader Int := fun c =>
  match signedDigit size 0 0 first with
  | .fault f => .error f c
  | .last value => .ok value c
  | .more sum => digits (signedDigit size) c.rest c.pos 7 sum

def u32 : Reader UInt32 := do
  let n ← unsigned 32
  pure n.toUInt32

def u64 : Reader UInt64 := do
  let n ← unsigned 64
  pure n.toUInt64

def s32 : Reader Int32 := do
  let n ← signed 32
  pure (Int32.ofInt n)

def s64 : Reader Int64 := do
  let n ← signed 64
  pure (Int64.ofInt n)

/-- The most entries any vector may claim. -/
def maxVectorEntries : Nat := 1000000

/-- The length of a vector. Every entry takes a byte or more, so a length beyond what is left is a
fault. -/
def count : Reader Nat := do
  let n ← u32
  let c ← get
  if n.toNat ≤ maxVectorEntries && holdsAtLeast n.toNat c.rest then pure n.toNat
  else throw .vectorLength

/-- As many bytes as the length before them says. -/
def bytes : Reader (List UInt8) := do
  let n ← u32
  take n.toNat

/-- A text in UTF-8 with its length in bytes before it. -/
def text : Reader String := do
  let bytes ← bytes
  match String.fromUTF8? bytes.toByteArray with
  | some s => pure s
  | none => throw .malformedText

end Reader

end Wasm.Binary
