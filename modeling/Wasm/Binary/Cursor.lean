/-! # Cursors over byte strings

A cursor is a place in a byte string: how many bytes lie behind it and which lie ahead. A reader takes
bytes from the front; when it fails, the bytes it took before the fault stay taken, while a read of a
fixed number of bytes takes all of them or none.
-/

namespace Wasm.Binary

structure Cursor where
  pos : Nat
  rest : List UInt8
deriving DecidableEq, Repr

/-- Faults of a read. -/
inductive ReadFault where
  | unexpectedEnd
  | integerTooLong
  | integerTooLarge
  | vectorLength
  | malformedText
deriving DecidableEq, Repr

namespace ReadFault

def message : ReadFault → String
  | unexpectedEnd => "unexpected end"
  | integerTooLong => "integer representation too long"
  | integerTooLarge => "integer too large"
  | vectorLength => "vector length exceeds the remaining input"
  | malformedText => "malformed UTF-8 encoding"

end ReadFault

/-- Reading takes bytes from a cursor, whether it succeeds or fails. -/
abbrev Reader := EStateM ReadFault Cursor

/-- Whether a list has at least `n` members, looking at no more than `n` of them. -/
def holdsAtLeast {α : Type} : Nat → List α → Bool
  | 0, _ => true
  | _ + 1, [] => false
  | n + 1, _ :: rest => holdsAtLeast n rest

theorem holdsAtLeast_iff {α : Type} (n : Nat) (xs : List α) :
    holdsAtLeast n xs = true ↔ n ≤ xs.length := by
  induction n generalizing xs with
  | zero => simp [holdsAtLeast]
  | succ n ih => cases xs <;> simp [holdsAtLeast, ih]

namespace Cursor

def ofBytes (bytes : List UInt8) : Cursor := ⟨0, bytes⟩

def remaining (c : Cursor) : Nat := c.rest.length

def isEmpty (c : Cursor) : Bool := c.rest.isEmpty

end Cursor

namespace Reader

/-- The next byte, if there is one. -/
def next? : Reader (Option UInt8) := fun c =>
  match c.rest with
  | [] => .ok none c
  | b :: rest => .ok (some b) ⟨c.pos + 1, rest⟩

def byte : Reader UInt8 := fun c =>
  match c.rest with
  | [] => .error .unexpectedEnd c
  | b :: rest => .ok b ⟨c.pos + 1, rest⟩

/-- The next `n` bytes, or none of them. -/
def take (n : Nat) : Reader (List UInt8) := fun c =>
  if holdsAtLeast n c.rest then .ok (c.rest.take n) ⟨c.pos + n, c.rest.drop n⟩
  else .error .unexpectedEnd c

/-- The next `n` bytes as a vector of that size, or none of them. -/
def vector (n : Nat) : Reader (Vector UInt8 n) := fun c =>
  if enough : (c.rest.take n).length = n then
    .ok ⟨(c.rest.take n).toArray, by simpa using enough⟩ ⟨c.pos + n, c.rest.drop n⟩
  else .error .unexpectedEnd c

/-- All bytes that are left. -/
def all : Reader (List UInt8) := fun c => .ok c.rest ⟨c.pos + c.rest.length, []⟩

/-- The next `n` bytes as a cursor of their own. -/
def frame (n : Nat) : Reader Cursor := do
  let bytes ← take n
  pure (Cursor.ofBytes bytes)

end Reader

/-- The number that bytes write, lowest byte first. -/
def littleEndian : List UInt8 → Nat
  | [] => 0
  | b :: rest => b.toNat + 256 * littleEndian rest

namespace Reader

/-- Four bytes, lowest first. -/
def word32 : Reader UInt32 := do
  let bytes ← take 4
  pure (littleEndian bytes).toUInt32

/-- Eight bytes, lowest first. -/
def word64 : Reader UInt64 := do
  let bytes ← take 8
  pure (littleEndian bytes).toUInt64

end Reader

end Wasm.Binary
