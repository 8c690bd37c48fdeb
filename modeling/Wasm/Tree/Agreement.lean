import Wasm.Tree.Basic

/-! # Agreement of trees

Trees agree when they are equal up to the values of floating-point constants: a tree that holds a NaN
does not agree with itself, and the two zeros agree.
-/

namespace Wasm

/-- Whether two arrays have the same length and related members. -/
def pairwise {α : Type} (related : α → α → Bool) (a b : Array α) : Bool :=
  a.size == b.size && (a.zip b).all fun (x, y) => related x y

namespace Tree

def exprAgrees (a b : Expr) : Bool := pairwise Instruction.agrees a b

def Global.agrees (a b : Global) : Bool := a.decl == b.decl && exprAgrees a.init b.init

def Element.agrees (a b : Element) : Bool :=
  a.segment == b.segment && exprAgrees a.offset b.offset && pairwise exprAgrees a.items b.items

def Body.agrees (a b : Body) : Bool :=
  a.locals == b.locals && exprAgrees a.instructions b.instructions

def Data.agrees (a b : Data) : Bool := a.segment == b.segment && exprAgrees a.offset b.offset

def agrees (a b : Tree) : Bool :=
  a.version == b.version && a.customs == b.customs && a.types == b.types &&
  a.imports == b.imports && a.functions == b.functions && a.tables == b.tables &&
  a.memories == b.memories && pairwise Global.agrees a.globals b.globals &&
  a.exports == b.exports && a.start == b.start && pairwise Element.agrees a.elements b.elements &&
  a.dataCount == b.dataCount && pairwise Body.agrees a.code b.code &&
  pairwise Data.agrees a.data b.data

end Tree

end Wasm
