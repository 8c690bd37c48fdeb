import Wasm.Binary.Declaration
import Wasm.Event.Consumer

/-! # Producing a module from its bytes

A producer decodes bytes and delivers what it finds to a consumer as it goes, so that an objection of
the consumer comes before any fault of the bytes behind it. Expressions that the consumer declines are
decoded all the same.
-/

namespace Wasm.Binary

/-- Where a producer is: its place in the bytes, its consumer, and the index of the function that is
imported or given a body next. -/
structure Session (σ : Type) where
  cursor : Cursor
  consumer : σ
  nextFunction : Nat := 0

abbrev Producer (σ : Type) := EStateM DecodeError (Session σ)

namespace Producer

variable {σ α : Type}

/-- Decodes without telling the consumer. -/
def read (m : Decoder α) : Producer σ α := fun ⟨c, t, next⟩ =>
  match m c with
  | .ok a c => .ok a ⟨c, t, next⟩
  | .error e c => .error e ⟨c, t, next⟩

instance : MonadLift Decoder (Producer σ) := ⟨read⟩

/-- Tells the consumer. -/
def tell (m : Step σ α) : Producer σ α := fun ⟨c, t, next⟩ =>
  match m t with
  | .ok a t => .ok a ⟨c, t, next⟩
  | .error v t => .error (.violation v) ⟨c, t, next⟩

/-- Works on other bytes and then returns to the present place. -/
def within (content : Cursor) (m : Producer σ α) : Producer σ α := fun ⟨c, t, next⟩ =>
  match m ⟨content, t, next⟩ with
  | .ok a ⟨_, t, next⟩ => .ok a ⟨c, t, next⟩
  | .error e ⟨_, t, next⟩ => .error e ⟨c, t, next⟩

/-- How many bytes are left. -/
def unused : Producer σ Nat := fun s => .ok s.cursor.remaining s

/-- Passes to the next function and gives the index of this one. -/
def takeFunction : Producer σ Nat := fun ⟨c, t, next⟩ => .ok next ⟨c, t, next + 1⟩

/-- As many entries as are asked for, up to the first error. -/
def times (entry : Producer σ Unit) (count : Nat) : Producer σ Unit := fun s =>
  match count with
  | 0 => .ok () s
  | count + 1 =>
    match entry s with
    | .ok _ s => times entry count s
    | .error e s => .error e s

/-- Entries with their number before them. -/
def entries (entry : Producer σ Unit) : Producer σ Unit := do
  let count ← Reader.count
  times entry count

variable (C : Consumer σ)

def entry (e : Entry) : Producer σ Unit := tell (C.entry e)

/-- What happens inside an expression is told if the consumer takes it. -/
def tellIf (takes : Bool) (m : Step σ Unit) : Step σ Unit := if takes then m else pure ()

/-- The rest of an expression with `depth` open blocks, told to the consumer as it is decoded. -/
def expressionFrom (takes : Bool) (depth : Nat) : Producer σ Unit := fun ⟨c, t, next⟩ =>
  match decoded : Decoder.instruction c with
  | .error e d => .error e ⟨d, t, next⟩
  | .ok i d =>
    have : d.rest.length < c.rest.length := Decoder.instruction_shrinks decoded
    match tellIf takes (C.instruction i) t with
    | .error v t => .error (.violation v) ⟨d, t, next⟩
    | .ok _ t =>
      match i.nesting depth with
      | some depth => expressionFrom takes depth ⟨d, t, next⟩
      | none => tell (tellIf takes C.exprEnd) ⟨d, t, next⟩
termination_by s => s.cursor.rest.length

/-- The expression at a site. -/
def expression (x : Site) : Producer σ Unit := do
  let takes ← tell (C.site x)
  expressionFrom C takes 0

def custom : Producer σ Unit := do
  let name ← Reader.text
  let payload ← Reader.all
  entry C (.custom name payload)

def imported : Producer σ Unit := do
  let i ← Decoder.imported
  match i.desc with
  | .function _ => let _ ← takeFunction
  | _ => pure ()
  entry C (.imported i)

def global : Producer σ Unit := do
  let d ← Decoder.globalDecl
  expression C (.global d)

/-- An element segment, then its offset if it is active, then its items if they are expressions. -/
def element : Producer σ Unit := do
  let (segment, offset) ← Decoder.element
  entry C (.element segment)
  if segment.mode.isActive then tell (C.item (.expr .elementOffset offset.toList))
  if segment.init = .expressions then entries (expression C .elementItem)

/-- The content of a function body. -/
def bodyContent : Producer σ Unit := do
  let locals ← Decoder.locals
  expression C (.code locals)
  let left ← unused
  if left ≠ 0 then throw (.malformed (.bodySize left))

def framedBody : Producer σ Unit := do
  let size ← Reader.u32
  let content ← Reader.frame size.toNat
  within content (bodyContent C)

/-- A function body; an objection to any part of it names the function. -/
def body : Producer σ Unit := do
  let func ← takeFunction
  EStateM.adaptExcept (DecodeError.inFunction func) (framedBody C)

/-- A data segment, then its offset if it is active. -/
def data : Producer σ Unit := do
  let (segment, offset) ← Decoder.data
  entry C (.data segment)
  if segment.mode.isActive then tell (C.item (.expr .dataOffset offset.toList))

/-- The content of a section. -/
def content : Section → Producer σ Unit
  | .type => entries do
    let d ← Decoder.funcDecl
    entry C (.type d)
  | .imports => entries (imported C)
  | .function => entries do
    let type ← Reader.u32
    entry C (.function type)
  | .table => entries do
    let d ← Decoder.tableDecl
    entry C (.table d)
  | .memory => entries do
    let l ← Decoder.limits
    entry C (.memory l)
  | .global => entries (global C)
  | .exports => entries do
    let e ← Decoder.exported
    entry C (.exported e)
  | .start => do
    let func ← Reader.u32
    entry C (.start func)
  | .element => entries (element C)
  | .dataCount => do
    let count ← Reader.u32
    entry C (.dataCount count)
  | .code => entries (body C)
  | .data => entries (data C)
  | .header | .finish => pure ()

/-- A section inside its frame, after a section of rank `last`; the answer is the rank from then on. A
custom section may stand anywhere. -/
def ranked (last : Nat) (id : UInt8) : Producer σ Nat :=
  if id = 0 then do
    custom C
    pure last
  else
    match Section.ofId? id with
    | none => throw (.unknownSection id)
    | some x => do
      if x.rank ≤ last then throw (.sectionOrder id)
      content C x
      pure x.rank

/-- A section inside its frame, which it has to fill. -/
def framed (last : Nat) (f : SectionFrame) : Producer σ Nat := do
  let rank ← ranked C last f.id
  let left ← unused
  if left ≠ 0 then throw (.sectionSize f.id f.size left)
  pure rank

/-- All sections that are left, after one of rank `last`. -/
def sections (last : Nat) : Producer σ Unit := fun ⟨c, t, next⟩ =>
  if c.isEmpty then .ok () ⟨c, t, next⟩
  else
    match decoded : Decoder.sectionFrame c with
    | .error e d => .error e ⟨d, t, next⟩
    | .ok (f, content) d =>
      have : d.rest.length < c.rest.length := Decoder.sectionFrame_shrinks decoded
      match framed C last f ⟨content, C.frame f t, next⟩ with
      | .error e ⟨_, t, next⟩ => .error e ⟨d, t, next⟩
      | .ok last ⟨_, t, next⟩ => sections last ⟨d, t, next⟩
termination_by s => s.cursor.rest.length

end Producer

/-- The word that leads a module. -/
def magic : UInt32 := 0x6d736100

/-- The one version of the format. -/
def formatVersion : UInt32 := 1

namespace Decoder

/-- The magic word, which is missing also if there are too few bytes for it, and the version. -/
def header : Decoder UInt32 := do
  let word ← EStateM.adaptExcept (fun _ => .badMagic) Reader.word32
  if word ≠ magic then throw .badMagic
  let version ← Reader.word32
  if version ≠ formatVersion then throw (.unknownVersion version)
  pure version

end Decoder

namespace Producer

variable {σ : Type}

/-- A whole module. -/
def produce (C : Consumer σ) : Producer σ Unit := do
  let version ← Decoder.header
  entry C (.header version)
  sections C 0
  entry C .finish

end Producer

variable {σ : Type}

/-- Delivers the module that bytes encode to a consumer in the state `start`, up to the first error. The
answer tells whether there was one, and the consumer's state after all that was delivered. -/
def deliver (C : Consumer σ) (bytes : List UInt8) (start : σ) : Except DecodeError Unit × σ :=
  match Producer.produce C { cursor := .ofBytes bytes, consumer := start } with
  | .ok _ s => (.ok (), s.consumer)
  | .error e s => (.error e, s.consumer)

end Wasm.Binary
