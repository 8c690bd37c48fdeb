import Wasm.Proofs.Binary.Producing
import Wasm.Proofs.Encoding.Declarations

/-! # Encoding the pieces of a tree

Every piece is written by itself, and the producer of its section tells the items of the piece from the bytes it is
written as. What can be written is bounded by what the format can count: sizes in bytes by 32 bits, and numbers of
entries by what a reader allows.
-/

namespace Wasm

open Binary

namespace Binary.Encode

open Wasm.Tree

/-- What the frame of a body encloses. -/
def bodyContent (b : Body) : List UInt8 := vector localDecl b.locals ++ expression b.instructions

/-- A piece as it stands in its section. -/
def piece : Piece → List UInt8
  | .custom name payload => text name ++ payload
  | .type d => funcDecl d
  | .imported i => imported i
  | .function index | .start index | .dataCount index => u32 index
  | .table d => tableDecl d
  | .memory l => limits l
  | .global g => globalDecl g.decl ++ expression g.init
  | .exported e => exported e
  | .element e =>
    element e.segment e.offset ++
      if e.segment.init = .expressions then vector expression e.items.toList else []
  | .body b => bytes (bodyContent b)
  | .data d => data d.segment d.offset

end Binary.Encode

namespace Tree

/-- A segment that can be written: only an active one has an offset, and a list of functions is all there is to its
items. -/
structure Element.Writable (e : Element) : Prop where
  active : e.segment.mode.isActive = true → e.offset.Writable
  inactive : e.segment.mode.isActive = false → e.offset = #[]
  functions : ∀ indices, e.segment.init = .functions indices →
    e.segment.tag = RefType.func.tag ∧ indices.length ≤ Reader.maxVectorEntries ∧ e.items = #[]
  count : e.items.size ≤ Reader.maxVectorEntries
  items : ∀ x ∈ e.items, Expr.Writable x

structure Body.Writable (b : Body) : Prop where
  runs : b.locals.length ≤ Reader.maxVectorEntries
  total : (b.locals.map (·.count.toNat)).sum ≤ maxLocals
  instructions : b.instructions.Writable
  size : (Encode.bodyContent b).length < 2 ^ 32

structure Data.Writable (d : Data) : Prop where
  active : d.segment.mode.isActive = true → d.offset.Writable
  inactive : d.segment.mode.isActive = false → d.offset = #[]
  size : d.segment.init.length < 2 ^ 32

def Piece.Writable : Piece → Prop
  | custom name _ => name.utf8ByteSize < 2 ^ 32
  | type d => d.params.length ≤ Reader.maxVectorEntries ∧ d.results.length ≤ Reader.maxVectorEntries
  | imported i => i.source.utf8ByteSize < 2 ^ 32 ∧ i.name.utf8ByteSize < 2 ^ 32 ∧ i.desc.Writable
  | function _ | start _ | dataCount _ => True
  | table d => d.limits.Writable
  | memory l => l.Writable
  | global g => g.init.Writable
  | exported e => e.name.utf8ByteSize < 2 ^ 32
  | element e => e.Writable
  | body b => b.Writable
  | data d => d.Writable

/-- Nothing of a piece that can be written is left untold. -/
theorem Piece.Writable.trim_eq {p : Piece} (writable : p.Writable) : p.trim = p := by
  cases p with
  | element e =>
    obtain ⟨segment, offset, items⟩ := e
    simpa [Piece.trim] using fun inactive => (Element.Writable.inactive writable inactive).symm
  | data d =>
    obtain ⟨segment, offset⟩ := d
    simpa [Piece.trim] using fun inactive => (Data.Writable.inactive writable inactive).symm
  | _ => rfl

end Tree

namespace Binary

open Producer Wasm.Tree

theorem Encode.piece_ne_nil (p : Piece) : Encode.piece p ≠ [] := by
  cases p with
  | memory l =>
    rw [Encode.piece, Encode.limits]
    split <;> simp
  | data d =>
    rw [Encode.piece, Encode.data, Encode.dataMode.eq_def]
    split
    · simp
    · split <;> simp
  | element e => simp [Encode.piece, Encode.element, Encode.elementFlags]
  | function index | start index | dataCount index => exact Encode.u32_ne_nil index
  | type d | table d | global g => simp [Encode.piece, Encode.funcDecl, Encode.tableDecl, Encode.globalDecl]
  | custom name payload | imported i | exported e | body b =>
    simp [Encode.piece, Encode.imported, Encode.exported, Encode.text, Encode.bytes]

/-! ## Producers on encoded bytes -/

/-- From these bytes, whatever follows them, just these items are told. -/
def Speaks (P : Speaker Unit) (bytes : List UInt8) (items : List Item) : Prop :=
  ∀ n pos rest, Tells P ⟨pos, bytes ++ rest⟩ n (Notice.ofItems n items)
    (.ok ((), ⟨pos + bytes.length, rest⟩, n + functionCount items))

namespace Speaks

variable {α : Type} {P Q : Speaker Unit} {xs ys : List UInt8} {is js : List Item}

theorem pure : Speaks (fun _ _ => Pure.pure ()) [] [] := fun n pos rest => .pure () ⟨pos, rest⟩ n

theorem followed (first : Speaks P xs is) (second : Speaks Q ys js) :
    Speaks (fun σ C => P σ C >>= fun _ => Q σ C) (xs ++ ys) (is ++ js) := by
  intro n pos rest
  rw [List.append_assoc, List.length_append, Notice.ofItems_append, functionCount_append, ← Nat.add_assoc pos,
    ← Nat.add_assoc n]
  exact (first n pos (ys ++ rest)).bind (second _ _ rest)

theorem reading {m : Decoder α} {a : α} (reads : Reads m xs a) {Q : α → Speaker Unit} (next : Speaks (Q a) ys is) :
    Speaks (fun σ C => Producer.read m >>= fun a => Q a σ C) (xs ++ ys) is := by
  intro n pos rest
  rw [List.append_assoc, List.length_append, ← Nat.add_assoc pos]
  exact (Tells.read_ok (reads pos (ys ++ rest))).bind (next n _ rest)

/-- A producer that reads and then tells what needs no more bytes. -/
theorem reading_last {m : Decoder α} {a : α} (reads : Reads m xs a) {Q : α → Speaker Unit} (next : Speaks (Q a) [] is) :
    Speaks (fun σ C => Producer.read m >>= fun a => Q a σ C) xs is :=
  List.append_nil xs ▸ reading reads next

theorem item (x : Item) (none : x.functions = 0) : Speaks (fun _ C => tell (C.item x)) [] [x] := by
  intro n pos rest
  rw [Notice.ofItems, Item.owners_of_functions none, functionCount_cons, none]
  exact .item x ⟨pos, rest⟩ n

theorem entry (e : Entry) (none : (Item.entry e).functions = 0) :
    Speaks (fun _ C => Producer.entry C e) [] [.entry e] := item (.entry e) none

theorem expression {x : Site} {e : Expr} (writable : e.Writable) (none : (Item.expr x e.toList).functions = 0) :
    Speaks (fun _ C => Producer.expression C x) (Encode.expression e) [.expr x e.toList] := by
  intro n pos rest
  rw [Notice.ofItems, Item.owners_of_functions none, functionCount_cons, none]
  exact .expression_ok (Reads.expression writable pos rest)

/-- Entries one after the other. -/
theorem times {encode : α → List UInt8} {items : α → List Item} {as : List α}
    (each : ∀ a ∈ as, Speaks P (encode a) (items a)) :
    Speaks (fun σ C => Producer.times (P σ C) as.length) (as.flatMap encode) (as.flatMap items) := by
  induction as with
  | nil => exact pure
  | cons a as ih =>
    obtain ⟨first, others⟩ := List.forall_mem_cons.mp each
    have both := first.followed (ih others)
    simp only [List.length_cons, times_succ, List.flatMap_cons]
    exact both

/-- Entries with their number before them. -/
theorem entries {encode : α → List UInt8} {items : α → List Item} {as : List α}
    (few : as.length ≤ Reader.maxVectorEntries) (room : ∀ a ∈ as, encode a ≠ [])
    (each : ∀ a ∈ as, Speaks P (encode a) (items a)) :
    Speaks (fun σ C => Producer.entries (P σ C)) (Encode.vector encode as) (as.flatMap items) := by
  intro n pos rest
  have enough : as.length ≤ (as.flatMap encode ++ rest).length :=
    Nat.le_trans (length_le_flatMap room) (by rw [List.length_append]; omega)
  have counts := Reader.count_encode few pos enough
  rw [Encode.vector, List.append_assoc, List.length_append, ← Nat.add_assoc pos]
  exact (Tells.read_ok (Decoder.lift_ok_iff.mpr counts)).bind (times each n _ rest)

/-! ## Pieces -/

theorem imported {i : Import} (writable : Piece.Writable (.imported i)) :
    Speaks (fun _ C => Producer.imported C) (Encode.piece (.imported i)) (Piece.items (.imported i)) := by
  refine reading_last (Reads.imported writable.1 writable.2.1 writable.2.2) ?_
  obtain ⟨source, name, desc⟩ := i
  cases desc with
  | function type => exact fun n pos rest => (Tells.takeFunction ⟨pos, rest⟩ n).bind (.entry _ ⟨pos, rest⟩ (n + 1))
  | table d | memory l | global d => exact entry _ rfl

theorem global {g : Global} (writable : g.init.Writable) :
    Speaks (fun _ C => Producer.global C) (Encode.piece (.global g)) (Piece.items (.global g)) :=
  reading (Reads.globalDecl g.decl) (expression writable rfl)

theorem elementItems {e : Element} (writable : e.Writable) :
    Speaks (fun _ C => if e.segment.init = .expressions then Producer.entries (Producer.expression C .elementItem)
        else Pure.pure ())
      (if e.segment.init = .expressions then Encode.vector Encode.expression e.items.toList else [])
      (e.items.toList.map fun item => .expr .elementItem item.toList) := by
  cases init : e.segment.init with
  | expressions =>
    have each (x : Expr) (member : x ∈ e.items.toList) : x.Writable :=
      writable.items x (Array.mem_toList_iff.mp member)
    simp only [if_true, List.map_eq_flatMap]
    exact entries (by simpa using writable.count) (fun x member => Encode.expression_ne_nil (each x member))
      fun x member => expression (each x member) rfl
  | functions indices =>
    rw [(writable.functions indices init).2.2]
    exact pure

theorem element {e : Element} (writable : e.Writable) :
    Speaks (fun _ C => Producer.element C) (Encode.piece (.element e)) (Piece.items (.element e)) := by
  have functions (other : e.segment.init ≠ .expressions) : e.segment.tag = RefType.func.tag := by
    cases init : e.segment.init with
    | expressions => exact absurd init other
    | functions indices => exact (writable.functions indices init).1
  have few (indices : List UInt32) (init : e.segment.init = .functions indices) :=
    (writable.functions indices init).2.1
  refine reading (Reads.element writable.active writable.inactive functions few) ?_
  dsimp only [Piece.items, Element.stream]
  cases e.segment.mode.isActive with
  | true =>
    exact (entry _ rfl).followed ((item (.expr .elementOffset e.offset.toList) rfl).followed (elementItems writable))
  | false => exact (entry _ rfl).followed (elementItems writable)

theorem data {d : Data} (writable : d.Writable) :
    Speaks (fun _ C => Producer.data C) (Encode.piece (.data d)) (Piece.items (.data d)) := by
  refine reading_last (Reads.data writable.active writable.inactive writable.size) ?_
  dsimp only [Piece.items, Data.stream]
  cases d.segment.mode.isActive with
  | true => exact (entry _ rfl).followed (item (.expr .dataOffset d.offset.toList) rfl)
  | false => exact (entry _ rfl).followed pure

end Speaks

/-- The content of a body fills its frame. -/
theorem Tells.bodyContent {b : Body} (writable : b.Writable) (n : Nat) :
    ∃ d, Tells (fun _ C => Producer.bodyContent C) (.ofBytes (Encode.bodyContent b)) n
      [.item [] (.expr (.code b.locals) b.instructions.toList)] (.ok ((), d, n)) := by
  have locals := Reads.locals writable.runs writable.total 0 (Encode.expression b.instructions)
  have instructions := Reads.expression writable.instructions (0 + (Encode.vector Encode.localDecl b.locals).length) []
  rw [List.append_nil] at instructions
  -- Nothing is left behind the last instruction, so the size is not objected to.
  exact ⟨_, (Tells.read_ok locals).bind ((Tells.expression_ok instructions).bind
    ((Tells.unused _ n).bind (.pure () _ n)))⟩

theorem Tells.framedBody {b : Body} (writable : b.Writable) (n pos : Nat) (rest : List UInt8) :
    Tells (fun _ C => Producer.framedBody C) ⟨pos, Encode.piece (.body b) ++ rest⟩ n
      [.item [] (.expr (.code b.locals) b.instructions.toList)]
      (.ok ((), ⟨pos + (Encode.piece (.body b)).length, rest⟩, n)) := by
  obtain ⟨d, inside⟩ := Tells.bodyContent writable n
  rw [Encode.piece, Encode.bytes, List.append_assoc, List.length_append, ← Nat.add_assoc]
  exact (Tells.read_ok ((Reads.u32_of_lt writable.size).lift _ _)).bind
    ((Tells.read_ok ((Reads.frame_sized writable.size).lift _ _)).bind (inside.within _))

theorem Speaks.body {b : Body} (writable : b.Writable) :
    Speaks (fun _ C => Producer.body C) (Encode.piece (.body b)) (Piece.items (.body b)) :=
  fun n pos rest => (Tells.takeFunction _ n).bind ((Tells.framedBody writable (n + 1) pos rest).inBody n)

end Binary

end Wasm
