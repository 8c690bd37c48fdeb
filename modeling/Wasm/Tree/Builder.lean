import Wasm.Tree.Basic

/-! # Building trees

A builder is a consumer that puts what it receives into a tree. The instructions of an expression go to
the place that the site of the expression names; an offset or item without a segment is declined.
-/

namespace Wasm

structure Tree.Builder where
  tree : Tree := {}
  /-- The site of the expression that was taken last. -/
  place : Option Site := none

namespace Tree

/-- Changes the last member of an array. -/
def modifyLast {α : Type} (f : α → α) (a : Array α) : Array α := a.modify (a.size - 1) f

/-- The tree with one more entry. -/
def add (t : Tree) : Entry → Tree
  | .header version => { t with version }
  | .custom name payload => { t with customs := t.customs.push (name, payload) }
  | .type d => { t with types := t.types.push d }
  | .imported i => { t with imports := t.imports.push i }
  | .function type => { t with functions := t.functions.push type }
  | .table d => { t with tables := t.tables.push d }
  | .memory l => { t with memories := t.memories.push l }
  | .exported e => { t with exports := t.exports.push e }
  | .start func => { t with start := some func }
  | .element segment => { t with elements := t.elements.push { segment } }
  | .dataCount count => { t with dataCount := some count }
  | .data segment => { t with data := t.data.push { segment } }
  | .finish => t

/-- Whether there is something that an expression at the site belongs to. -/
def hasPlace (t : Tree) : Site → Bool
  | .elementOffset | .elementItem => !t.elements.isEmpty
  | .dataOffset => !t.data.isEmpty
  | .global _ | .code _ => true

/-- The tree with a place for an expression. -/
def addSite (t : Tree) : Site → Tree
  | .global decl => { t with globals := t.globals.push { decl } }
  | .code locals => { t with code := t.code.push { locals } }
  | .elementItem =>
    { t with elements := modifyLast (fun e => { e with items := e.items.push #[] }) t.elements }
  | .elementOffset | .dataOffset => t

/-- The tree with one more instruction in the last expression of a kind of site. -/
def addInstruction (t : Tree) (i : Instruction) : Site → Tree
  | .global _ =>
    { t with globals := modifyLast (fun g => { g with init := g.init.push i }) t.globals }
  | .elementOffset =>
    { t with elements := modifyLast (fun e => { e with offset := e.offset.push i }) t.elements }
  | .elementItem =>
    { t with
      elements := modifyLast
        (fun e => { e with items := modifyLast (fun item => item.push i) e.items }) t.elements }
  | .code _ =>
    { t with
      code := modifyLast (fun b => { b with instructions := b.instructions.push i }) t.code }
  | .dataOffset =>
    { t with data := modifyLast (fun d => { d with offset := d.offset.push i }) t.data }

namespace Builder

/-- An instruction goes to the expression that was taken last. -/
def addInstruction (i : Instruction) : Builder → Builder
  | ⟨tree, some place⟩ => ⟨tree.addInstruction i place, some place⟩
  | ⟨tree, none⟩ => ⟨tree, none⟩

def consumer : Consumer Builder where
  entry e := modify fun b => { b with tree := b.tree.add e }
  site x := fun b =>
    if b.tree.hasPlace x then .ok true ⟨b.tree.addSite x, some x⟩ else .ok false b
  instruction i := modify fun b => b.addInstruction i
  exprEnd := pure ()

end Builder

end Tree

end Wasm
