import Wasm.Tree.Basic
import Wasm.Proofs.Typing.Constants
import Wasm.Proofs.Typing.Locals
import Wasm.Proofs.Typing.Steps
import Wasm.Proofs.Validator.Declared

/-! # Valid module trees

Validity of a module as a whole: one index space and one set of declared references are computed from all of the tree,
and every part is judged against those two, in no order.
-/

namespace Wasm

namespace ImportDesc

def function? : ImportDesc → Option UInt32
  | .function type => some type
  | _ => none

def table? : ImportDesc → Option TableType
  | .table d => d.type?
  | _ => none

def memory? : ImportDesc → Option Limits
  | .memory l => some l
  | _ => none

def global? : ImportDesc → Option GlobalType
  | .global d => d.type?
  | _ => none

/-- An import is legal in itself, and the type of a function exists. -/
def Legal (C : IndexSpace) : ImportDesc → Prop
  | .function type => type.toNat < C.types.size
  | .table d => d.Legal
  | .memory l => l.LegalMemory
  | .global d => d.Legal

end ImportDesc

/-- The kind of an export is known, and what it names exists. -/
def Export.InRange (C : IndexSpace) (e : Export) : Prop :=
  (e.kind = 0x00 ∧ e.index.toNat < C.functions.size) ∨
  (e.kind = 0x01 ∧ e.index.toNat < C.tables.size) ∨
  (e.kind = 0x02 ∧ e.index.toNat < C.memories.size) ∨
  (e.kind = 0x03 ∧ e.index.toNat < C.globals.size)

/-- The function that is exported, if one is. -/
def Export.mentions (e : Export) : List UInt32 := if e.kind = 0x00 then [e.index] else []

/-- The functions that make up a segment. -/
def ElementInit.mentions : ElementInit → List UInt32
  | .functions funcs => funcs
  | .expressions => []

namespace Tree

/-- The functions that an expression mentions. -/
def exprMentions (e : Expr) : List UInt32 := e.toList.flatMap Instruction.mentions

namespace Element

/-- The functions that a segment, its offset and its items mention. -/
def mentions (e : Element) : List UInt32 :=
  e.segment.init.mentions ++ (if e.segment.mode.isActive then exprMentions e.offset else []) ++
    e.items.toList.flatMap exprMentions

/-- A segment has a reference type. An active one goes to a table of that type, at a constant offset. Functions make
elements of function type only, exist, and leave no room for items; items are constants of the segment's type. -/
def Valid (C : IndexSpace) (e : Element) : Prop :=
  ∃ type, RefType.ofTag? e.segment.tag = some type ∧
    (∀ table, e.segment.mode = .active table →
      (∃ limits, C.tables[table.toNat]? = some ⟨type, limits⟩) ∧ IsConstantExpr C e.offset.toList .i32) ∧
    (∀ funcs, e.segment.init = .functions funcs →
      type = .func ∧ (∀ func ∈ funcs, func.toNat < C.functions.size) ∧ e.items = #[]) ∧
    ∀ item ∈ e.items, IsConstantExpr C item.toList (.ref type)

end Element

namespace Data

def mentions (d : Data) : List UInt32 := if d.segment.mode.isActive then exprMentions d.offset else []

/-- An active segment goes to a memory that exists, at a constant offset. -/
def Valid (C : IndexSpace) (d : Data) : Prop :=
  ∀ memory, d.segment.mode = .active memory →
    memory.toNat < C.memories.size ∧ IsConstantExpr C d.offset.toList .i32

end Data

/-- A body of a function of a type: the runs of locals have legal tags, those that are declared make no more than
2^32 - 1 locals together with the parameters, and the code is accepted with all these locals. -/
def Body.Valid (C : IndexSpace) (refs : FuncRefs) (type : FuncType) (b : Body) : Prop :=
  ∃ types, LocalDecl.StandFor b.locals types ∧ (b.locals = [] ∨ (type.params ++ types).length ≤ 2 ^ 32 - 1) ∧
    Check.Accepts (.function C type.results (.ofTypes (type.params ++ types)) refs) type.results b.instructions.toList

/-- The index spaces of the whole module: imports first, then definitions; declarations that are not legal count for
nothing. -/
def space (t : Tree) : IndexSpace where
  types := t.types.filterMap FuncDecl.type?
  functions := t.imports.filterMap (·.desc.function?) ++ t.functions
  importedFunctions := (t.imports.filterMap (·.desc.function?)).size
  tables := t.imports.filterMap (·.desc.table?) ++ t.tables.filterMap TableDecl.type?
  memories := t.imports.filterMap (·.desc.memory?) ++ t.memories
  globals := t.imports.filterMap (·.desc.global?) ++ t.globals.filterMap (·.decl.type?)
  importedGlobals := (t.imports.filterMap (·.desc.global?)).size
  elements := t.elements.filterMap fun e => RefType.ofTag? e.segment.tag
  dataCount := t.dataCount

/-- The functions that the module mentions outside of function bodies. -/
def mentions (t : Tree) : List UInt32 :=
  t.globals.toList.flatMap (fun g => exprMentions g.init) ++ t.exports.toList.flatMap Export.mentions ++
    t.elements.toList.flatMap Element.mentions ++ t.data.toList.flatMap Data.mentions

/-- The references that function bodies may make. -/
def declared (t : Tree) : FuncRefs := declaring {} t.mentions

/-- Validity of a module, every part of it against the index spaces and the references of the whole. -/
structure Valid (t : Tree) : Prop where
  types : ∀ d ∈ t.types, d.Legal
  imports : ∀ i ∈ t.imports, i.desc.Legal t.space
  functions : ∀ type ∈ t.functions, type.toNat < t.space.types.size
  tables : ∀ d ∈ t.tables, d.Legal
  memories : ∀ l ∈ t.memories, l.LegalMemory
  oneMemory : t.space.memories.size ≤ 1
  globals : ∀ g ∈ t.globals, g.decl.Legal ∧
    ∀ type, g.decl.type? = some type → IsConstantExpr t.space g.init.toList type.value
  exportNames : (t.exports.toList.map (·.name)).Nodup
  exports : ∀ e ∈ t.exports, e.InRange t.space
  start : ∀ func ∈ t.start, t.space.HasFunction func ⟨[], []⟩
  elements : ∀ e ∈ t.elements, e.Valid t.space
  /-- The bodies are those of the functions defined, one for each and in their order. -/
  code : List.Forall₂ (fun index body => ∃ type, t.space.types[UInt32.toNat index]? = some type ∧
    body.Valid t.space t.declared type) t.functions.toList t.code.toList
  data : ∀ d ∈ t.data, d.Valid t.space
  dataCount : ∀ count ∈ t.dataCount, count.toNat = t.data.size

end Tree

end Wasm
