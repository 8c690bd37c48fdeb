import Wasm.Event.Consumer
import Wasm.Instruction.Text

/-! # Module trees

A module in memory: its entries by section, with the expressions that belong to them. A tree can be
replayed as the stream of items it stands for.
-/

namespace Wasm

namespace Tree

structure Global where
  decl : GlobalDecl
  init : Expr := #[]
deriving DecidableEq, Repr

structure Element where
  segment : ElementSegment
  offset : Expr := #[]
  items : Array Expr := #[]
deriving DecidableEq, Repr

structure Body where
  locals : List LocalDecl
  instructions : Expr := #[]
deriving DecidableEq, Repr

structure Data where
  segment : DataSegment
  offset : Expr := #[]
deriving DecidableEq, Repr

end Tree

structure Tree where
  version : UInt32 := 0
  /-- Names and contents of the custom sections. -/
  customs : Array (String × List UInt8) := #[]
  types : Array FuncDecl := #[]
  imports : Array Import := #[]
  /-- The type indices of the functions that have a body in the module. -/
  functions : Array UInt32 := #[]
  tables : Array TableDecl := #[]
  memories : Array Limits := #[]
  globals : Array Tree.Global := #[]
  exports : Array Export := #[]
  start : Option UInt32 := none
  elements : Array Tree.Element := #[]
  dataCount : Option UInt32 := none
  code : Array Tree.Body := #[]
  data : Array Tree.Data := #[]
deriving DecidableEq, Repr

namespace Tree

/-- The items of an element segment: it is followed by its offset, if it is active, and its items. -/
def Element.stream (e : Element) : List Item :=
  .entry (.element e.segment) ::
    (if e.segment.mode.isActive then [.expr .elementOffset e.offset.toList] else []) ++
    e.items.toList.map fun item => .expr .elementItem item.toList

def Data.stream (d : Data) : List Item :=
  .entry (.data d.segment) ::
    (if d.segment.mode.isActive then [.expr .dataOffset d.offset.toList] else [])

/-- The stream of items that the tree stands for, in section order. -/
def items (t : Tree) : List Item :=
  [.entry (.header t.version)] ++
  t.customs.toList.map (fun (name, payload) => .entry (.custom name payload)) ++
  t.types.toList.map (fun d => .entry (.type d)) ++
  t.imports.toList.map (fun i => .entry (.imported i)) ++
  t.functions.toList.map (fun type => .entry (.function type)) ++
  t.tables.toList.map (fun d => .entry (.table d)) ++
  t.memories.toList.map (fun l => .entry (.memory l)) ++
  t.globals.toList.map (fun g => .expr (.global g.decl) g.init.toList) ++
  t.exports.toList.map (fun e => .entry (.exported e)) ++
  t.start.toList.map (fun func => .entry (.start func)) ++
  t.elements.toList.flatMap Element.stream ++
  t.dataCount.toList.map (fun count => .entry (.dataCount count)) ++
  t.code.toList.map (fun b => .expr (.code b.locals) b.instructions.toList) ++
  t.data.toList.flatMap Data.stream ++
  [.entry .finish]

/-- Delivers the tree to a consumer. -/
def replay {σ : Type} (C : Consumer σ) (t : Tree) : Step σ Unit := C.items t.items

end Tree

end Wasm
