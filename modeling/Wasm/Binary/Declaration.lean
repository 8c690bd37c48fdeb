import Wasm.Binary.Expression
import Wasm.Event.Basic

/-! # Decoding declarations

The entries of sections as the binary format writes them. Tags, kinds and indices are taken as they
come; only what decides how many bytes follow has to be legal here.
-/

namespace Wasm.Binary

namespace Decoder

/-- Tags with their number before them. -/
def tags : Decoder (List UInt8) := do
  let count ← Reader.count
  Reader.take count

/-- The byte that leads a function type. -/
def functionForm : UInt8 := 0x60

def funcDecl : Decoder FuncDecl := do
  let form ← Reader.byte
  if form ≠ functionForm then throw (.malformed (.functionForm form))
  let params ← tags
  let results ← tags
  pure ⟨params, results⟩

def limits : Decoder Limits := do
  let flag ← Reader.byte
  match flag with
  | 0x00 =>
    let min ← Reader.u32
    pure ⟨min.toUInt64, none⟩
  | 0x01 =>
    let min ← Reader.u32
    let max ← Reader.u32
    pure ⟨min.toUInt64, some max.toUInt64⟩
  | flag => throw (.malformed (.limitsFlag flag))

def tableDecl : Decoder TableDecl := do
  let tag ← Reader.byte
  let limits ← limits
  pure ⟨tag, limits⟩

def globalDecl : Decoder GlobalDecl := do
  let tag ← Reader.byte
  let mutability ← Reader.byte
  pure ⟨tag, mutability⟩

def importDesc : Decoder ImportDesc := do
  let kind ← Reader.byte
  match kind with
  | 0x00 =>
    let type ← Reader.u32
    pure (.function type)
  | 0x01 => .table <$> tableDecl
  | 0x02 => .memory <$> limits
  | 0x03 => .global <$> globalDecl
  | kind => throw (.malformed (.importKind kind))

def imported : Decoder Import := do
  let source ← Reader.text
  let name ← Reader.text
  let desc ← importDesc
  pure ⟨source, name, desc⟩

def exported : Decoder Export := do
  let name ← Reader.text
  let kind ← Reader.byte
  let index ← Reader.u32
  pure ⟨name, kind, index⟩

/-- How an element segment is written. Flags 0 and 4 neither name a table nor a type. -/
structure ElementForm where
  /-- Without a table to go to; the segment then says whether it is passive or declarative. -/
  inactive : Bool
  /-- With a table index, or declarative if inactive. -/
  marked : Bool
  /-- With expressions as items. -/
  expressions : Bool

def elementForm : Decoder ElementForm := do
  let flags ← Reader.u32
  if 7 < flags then throw (.malformed (.elementFlags flags))
  pure ⟨flags &&& 1 ≠ 0, flags &&& 2 ≠ 0, flags &&& 4 ≠ 0⟩

/-- The mode of an element segment, and its offset if it is active. -/
def elementMode (form : ElementForm) : Decoder (ElementMode × Expr) := do
  if form.inactive then pure (if form.marked then .declarative else .passive, #[])
  else
    let table ← if form.marked then (Reader.u32 : Decoder UInt32) else pure 0
    let offset ← expression
    pure (.active table, offset)

/-- The tag of an element segment's type. Where it may be left out, or only the kind of items is given,
they are functions. -/
def elementTag (form : ElementForm) : Decoder UInt8 := do
  if form.inactive || form.marked then
    let b ← Reader.byte
    if form.expressions then pure b
    else if b = 0x00 then pure RefType.func.tag
    else throw (.malformed (.elementKind b))
  else pure RefType.func.tag

def elementInit (form : ElementForm) : Decoder ElementInit := do
  if form.expressions then pure .expressions
  else
    let count ← Reader.count
    let indices ← repeated Reader.u32 count
    pure (.functions indices)

/-- An element segment and its offset; items that are expressions follow it. -/
def element : Decoder (ElementSegment × Expr) := do
  let form ← elementForm
  let (mode, offset) ← elementMode form
  let tag ← elementTag form
  let init ← elementInit form
  pure (⟨tag, mode, init⟩, offset)

def localDecl : Decoder LocalDecl := do
  let count ← Reader.u32
  let tag ← Reader.byte
  pure ⟨count, tag⟩

/-- Runs of locals, which together are no more than 32-bit indices can name; `total` counts those of
the runs `before`. -/
def localsOnto (count total : Nat) (before : List LocalDecl) : Decoder (List LocalDecl) := fun c =>
  match count with
  | 0 => .ok before.reverse c
  | count + 1 =>
    match localDecl c with
    | .error e c => .error e c
    | .ok d c =>
      if maxLocals < total + d.count.toNat then .error (.malformed .tooManyLocals) c
      else localsOnto count (total + d.count.toNat) (d :: before) c

def locals : Decoder (List LocalDecl) := do
  let count ← Reader.count
  localsOnto count 0 []

/-- The mode of a data segment, and its offset if it is active. -/
def dataMode : Decoder (DataMode × Expr) := do
  let flags ← Reader.u32
  match flags with
  | 0 =>
    let offset ← expression
    pure (.active 0, offset)
  | 1 => pure (.passive, #[])
  | 2 =>
    let memory ← Reader.u32
    let offset ← expression
    pure (.active memory, offset)
  | flags => throw (.malformed (.dataFlags flags))

def data : Decoder (DataSegment × Expr) := do
  let (mode, offset) ← dataMode
  let init ← Reader.bytes
  pure (⟨mode, init⟩, offset)

/-- What a section's frame says after its identifier, and the bytes that it encloses. -/
def frameAfter (id : UInt8) : Decoder (SectionFrame × Cursor) := do
  let size ← Reader.u32
  let content ← Reader.frame size.toNat
  let c ← get
  pure (⟨id, size, c.pos⟩, content)

/-- The frame of a section and the bytes that it encloses. -/
def sectionFrame : Decoder (SectionFrame × Cursor) := do
  let id ← Reader.byte
  frameAfter id

end Decoder

theorem Forward.frameAfter (id : UInt8) : Forward (Decoder.frameAfter id) :=
  Forward.u32.lift.bind fun size =>
    Forward.bind (Forward.lift ((Forward.take size.toNat).bind fun _ => .pure _)) fun _ =>
      Forward.bind (m := get) (fun c => .refl c) fun _ => .pure _

/-- The frame of a section takes a byte or more. -/
theorem Decoder.sectionFrame_shrinks {c d : Cursor} {f : SectionFrame × Cursor}
    (decoded : Decoder.sectionFrame c = .ok f d) : d.rest.length < c.rest.length := by
  obtain ⟨pos, _ | ⟨b, rest⟩⟩ := c
  · cases decoded
  · have forward := Forward.frameAfter b ⟨pos + 1, rest⟩
    have after : Decoder.frameAfter b ⟨pos + 1, rest⟩ = .ok f d := decoded
    rw [after] at forward
    exact Nat.lt_succ_of_le forward.length_le

end Wasm.Binary
