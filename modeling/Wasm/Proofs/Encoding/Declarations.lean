import Wasm.Proofs.Encoding.Instructions

/-! # Encoding declarations

The entries of sections in their shortest forms. A segment is written with the flags that say no more than its mode, its
items and its type call for: an active one leaves out the table with index zero, and the type of its items if they are
functions.
-/

namespace Wasm

open Binary

/-- Bounds that can be written. -/
structure Limits.Writable (l : Limits) : Prop where
  min : l.min.toNat < 2 ^ 32
  max : ∀ m, l.max = some m → m.toNat < 2 ^ 32

def ImportDesc.Writable : ImportDesc → Prop
  | table d => d.limits.Writable
  | memory l => l.Writable
  | function _ | global _ => True

/-- The form that a segment is written in. -/
def ElementSegment.form (s : ElementSegment) : Decoder.ElementForm :=
  let expressions := decide (s.init = .expressions)
  match s.mode with
  | .passive => ⟨true, false, expressions⟩
  | .declarative => ⟨true, true, expressions⟩
  | .active table => ⟨false, table ≠ 0 || expressions && s.tag ≠ RefType.func.tag, expressions⟩

theorem ElementSegment.form_expressions (s : ElementSegment) :
    s.form.expressions = decide (s.init = .expressions) := by
  unfold ElementSegment.form
  cases s.mode <;> rfl

namespace Binary

namespace Encode

def funcDecl (d : FuncDecl) : List UInt8 := Decoder.functionForm :: bytes d.params ++ bytes d.results

def limits (l : Limits) : List UInt8 :=
  match l.max with
  | none => 0x00 :: unsigned l.min.toNat
  | some max => 0x01 :: unsigned l.min.toNat ++ unsigned max.toNat

def tableDecl (d : TableDecl) : List UInt8 := d.tag :: limits d.limits

def globalDecl (d : GlobalDecl) : List UInt8 := [d.tag, d.mutability]

def importDesc : ImportDesc → List UInt8
  | .function type => 0x00 :: u32 type
  | .table d => 0x01 :: tableDecl d
  | .memory l => 0x02 :: limits l
  | .global d => 0x03 :: globalDecl d

def imported (i : Import) : List UInt8 := text i.source ++ (text i.name ++ importDesc i.desc)

def exported (e : Export) : List UInt8 := text e.name ++ e.kind :: u32 e.index

def elementFlags (form : Decoder.ElementForm) : List UInt8 :=
  unsigned (form.inactive.toNat + 2 * form.marked.toNat + 4 * form.expressions.toNat)

def elementMode (form : Decoder.ElementForm) (offset : Expr) : ElementMode → List UInt8
  | .passive | .declarative => []
  | .active table => (if form.marked then u32 table else []) ++ expression offset

def elementTag (form : Decoder.ElementForm) (tag : UInt8) : List UInt8 :=
  if form.inactive || form.marked then [if form.expressions then tag else 0x00] else []

def elementInit : ElementInit → List UInt8
  | .functions indices => vector u32 indices
  | .expressions => []

/-- An element segment and its offset, without items that are expressions. -/
def element (s : ElementSegment) (offset : Expr) : List UInt8 :=
  elementFlags s.form ++ (elementMode s.form offset s.mode ++ (elementTag s.form s.tag ++ elementInit s.init))

def localDecl (d : LocalDecl) : List UInt8 := u32 d.count ++ [d.tag]

def dataMode (offset : Expr) : DataMode → List UInt8
  | .passive => unsigned 1
  | .active memory =>
    if memory = 0 then unsigned 0 ++ expression offset else unsigned 2 ++ (u32 memory ++ expression offset)

def data (s : DataSegment) (offset : Expr) : List UInt8 := dataMode offset s.mode ++ bytes s.init

end Encode

namespace Reads

theorem funcDecl {d : FuncDecl} (params : d.params.length ≤ Reader.maxVectorEntries)
    (results : d.results.length ≤ Reader.maxVectorEntries) : Reads Decoder.funcDecl (Encode.funcDecl d) d := by
  have tags {tags : List UInt8} (few : tags.length ≤ Reader.maxVectorEntries) :
      Reads Decoder.tags (Encode.bytes tags) tags := counted few (Nat.le_refl _) (take tags).lift
  refine (byte Decoder.functionForm).lift.bind ?_
  rw [if_neg (by simp)]
  exact (tags params).bind ((tags results).returning _)

theorem limits {l : Limits} (writable : l.Writable) : Reads Decoder.limits (Encode.limits l) l := by
  have narrow {n : UInt64} (fits : n.toNat < 2 ^ 32) : ∃ m : UInt32, n = m.toUInt64 := by
    refine ⟨n.toNat.toUInt32, UInt64.toNat_inj.mp ?_⟩
    rw [UInt32.toNat_toUInt64, Nat.toUInt32, UInt32.toNat_ofNat_of_lt' fits]
  obtain ⟨min, max⟩ := l
  obtain ⟨low, rfl⟩ := narrow writable.min
  cases max with
  | none => exact (byte 0x00).lift.bind ((u32 low).lift.returning _)
  | some max =>
    obtain ⟨high, rfl⟩ := narrow (writable.max max rfl)
    exact (byte 0x01).lift.bind ((u32 low).lift.bind ((u32 high).lift.returning _))

theorem tableDecl {d : TableDecl} (writable : d.limits.Writable) :
    Reads Decoder.tableDecl (Encode.tableDecl d) d :=
  (byte d.tag).lift.bind ((limits writable).returning _)

theorem globalDecl (d : GlobalDecl) : Reads Decoder.globalDecl (Encode.globalDecl d) d :=
  (byte d.tag).lift.bind ((byte d.mutability).lift.returning _)

theorem importDesc {d : ImportDesc} (writable : d.Writable) : Reads Decoder.importDesc (Encode.importDesc d) d := by
  cases d with
  | function type => exact (byte 0x00).lift.bind ((u32 type).lift.returning _)
  | table d => exact (byte 0x01).lift.bind ((tableDecl writable).map _)
  | memory l => exact (byte 0x02).lift.bind ((limits writable).map _)
  | global d => exact (byte 0x03).lift.bind ((globalDecl d).map _)

theorem imported {i : Import} (source : i.source.utf8ByteSize < 2 ^ 32) (name : i.name.utf8ByteSize < 2 ^ 32)
    (writable : i.desc.Writable) : Reads Decoder.imported (Encode.imported i) i :=
  (text source).lift.bind ((text name).lift.bind ((importDesc writable).returning _))

theorem exported {e : Export} (name : e.name.utf8ByteSize < 2 ^ 32) : Reads Decoder.exported (Encode.exported e) e :=
  (text name).lift.bind ((byte e.kind).lift.bind ((u32 e.index).lift.returning _))

/-! ## Segments and locals -/

theorem elementForm (form : Decoder.ElementForm) : Reads Decoder.elementForm (Encode.elementFlags form) form := by
  obtain ⟨_ | _, _ | _, _ | _⟩ := form <;>
    exact (u32_of_lt (by decide)).lift.bind_nil fun _ _ => rfl

theorem elementMode {s : ElementSegment} {offset : Expr} (active : s.mode.isActive = true → offset.Writable)
    (inactive : s.mode.isActive = false → offset = #[]) :
    Reads (Decoder.elementMode s.form) (Encode.elementMode s.form offset s.mode) (s.mode, offset) := by
  obtain ⟨tag, mode, init⟩ := s
  cases mode with
  | passive =>
    rw [inactive rfl]
    exact pure _
  | declarative =>
    rw [inactive rfl]
    exact pure _
  | active table =>
    have last := (expression (active rfl)).returning fun offset => (ElementMode.active table, offset)
    unfold Decoder.elementMode Encode.elementMode
    rw [if_neg (by simp [ElementSegment.form])]
    dsimp only
    split
    · exact (u32 table).lift.bind last
    · rename_i unmarked
      obtain rfl : table = 0 := by simp_all [ElementSegment.form]
      exact (pure 0).bind last

/-- The tag is left out only where it is that of functions. -/
theorem elementTag {s : ElementSegment} (functions : s.init ≠ .expressions → s.tag = RefType.func.tag) :
    Reads (Decoder.elementTag s.form) (Encode.elementTag s.form s.tag) s.tag := by
  unfold Decoder.elementTag Encode.elementTag
  split
  · refine (byte _).lift.bind_nil ?_
    rw [s.form_expressions]
    by_cases expressions : s.init = .expressions
    · simpa [expressions] using pure s.tag
    · rw [functions expressions]
      simpa [expressions] using pure RefType.func.tag
  · rename_i short
    have same : s.tag = RefType.func.tag := by
      by_cases expressions : s.init = .expressions
      · unfold ElementSegment.form at short
        cases mode : s.mode <;> simp_all
      · exact functions expressions
    rw [same]
    exact pure _

theorem elementInit {s : ElementSegment}
    (few : ∀ indices, s.init = .functions indices → indices.length ≤ Reader.maxVectorEntries) :
    Reads (Decoder.elementInit s.form) (Encode.elementInit s.init) s.init := by
  unfold Decoder.elementInit
  rw [s.form_expressions]
  cases init : s.init with
  | expressions => exact pure _
  | functions indices =>
    have enough : indices.length ≤ (indices.flatMap Encode.u32).length :=
      length_le_flatMap fun x _ => Encode.u32_ne_nil x
    exact counted (few indices init) enough ((repeated fun x _ => (u32 x).lift).returning _)

/-- A segment is read back together with its offset, which is empty if the segment has no place. -/
theorem element {s : ElementSegment} {offset : Expr} (active : s.mode.isActive = true → offset.Writable)
    (inactive : s.mode.isActive = false → offset = #[]) (functions : s.init ≠ .expressions → s.tag = RefType.func.tag)
    (few : ∀ indices, s.init = .functions indices → indices.length ≤ Reader.maxVectorEntries) :
    Reads Decoder.element (Encode.element s offset) (s, offset) :=
  (elementForm s.form).bind ((elementMode active inactive).bind ((elementTag functions).bind
    ((elementInit few).returning _)))

theorem localDecl (d : LocalDecl) : Reads Decoder.localDecl (Encode.localDecl d) d :=
  (u32 d.count).lift.bind ((byte d.tag).lift.returning _)

theorem localsOnto {ds : List LocalDecl} {total : Nat} (before : List LocalDecl)
    (few : total + (ds.map (·.count.toNat)).sum ≤ maxLocals) :
    Reads (Decoder.localsOnto ds.length total before) (ds.flatMap Encode.localDecl) (before.reverse ++ ds) := by
  induction ds generalizing total before with
  | nil => intro pos rest; simp [Decoder.localsOnto]
  | cons d ds ih =>
    rw [List.map_cons, List.sum_cons] at few
    have fewer : total + d.count.toNat + (ds.map (·.count.toNat)).sum ≤ maxLocals := by omega
    have others := ih (d :: before) fewer
    intro pos rest
    rw [List.flatMap_cons, List.append_assoc, List.length_cons, Decoder.localsOnto, localDecl]
    dsimp only
    rw [if_neg (by omega), others, List.length_append, Nat.add_assoc, List.reverse_cons, List.append_assoc,
      List.singleton_append]

theorem locals {ds : List LocalDecl} (runs : ds.length ≤ Reader.maxVectorEntries)
    (few : (ds.map (·.count.toNat)).sum ≤ maxLocals) :
    Reads Decoder.locals (Encode.vector Encode.localDecl ds) ds :=
  counted runs (length_le_flatMap fun d _ => by simp [Encode.localDecl]) (localsOnto [] (by omega))

theorem dataMode {mode : DataMode} {offset : Expr} (active : mode.isActive = true → offset.Writable)
    (inactive : mode.isActive = false → offset = #[]) :
    Reads Decoder.dataMode (Encode.dataMode offset mode) (mode, offset) := by
  cases mode with
  | passive =>
    rw [inactive rfl]
    exact (u32_of_lt (n := 1) (by decide)).lift.bind_nil (pure _)
  | active memory =>
    have last := (expression (active rfl)).returning fun offset => (DataMode.active memory, offset)
    rw [Encode.dataMode]
    split
    · subst memory
      exact (u32_of_lt (n := 0) (by decide)).lift.bind last
    · exact (u32_of_lt (n := 2) (by decide)).lift.bind ((u32 memory).lift.bind last)

theorem data {s : DataSegment} {offset : Expr} (active : s.mode.isActive = true → offset.Writable)
    (inactive : s.mode.isActive = false → offset = #[]) (fits : s.init.length < 2 ^ 32) :
    Reads Decoder.data (Encode.data s offset) (s, offset) :=
  (dataMode active inactive).bind ((bytes fits).lift.returning _)

end Reads

end Binary

end Wasm
