import Wasm.Typing.Frame

/-! # Type checking of expressions

An expression is checked one instruction at a time against a scope. The state is the stack of open
blocks, each with its own operands; the outermost block is the expression itself, and once that is closed
nothing more is accepted. A rejected instruction leaves what it had done by then: operands that it popped
stay popped.
-/

namespace Wasm

structure Checker where
  /-- The open blocks, innermost first. -/
  frames : List Frame
  /-- What the expression gave, once it has ended; the top operand first. -/
  given : List Slot := []
deriving DecidableEq, Repr

abbrev Check := EStateM Violation Checker

namespace Checker

/-- An expression of the given results, nothing of it read yet. -/
def start (results : List ValueType) : Checker := ⟨[.enter .function ⟨[], results⟩], []⟩

def isEnded (c : Checker) : Bool := c.frames.isEmpty

/-- All operands, the bottom one first. -/
def stack (c : Checker) : List Slot := (c.frames.flatMap (·.operands) ++ c.given).reverse

end Checker

namespace Check

/-- Acts on the operands of the innermost block. -/
def innermost {α : Type} (m : Operate α) : Check α := fun c =>
  match c.frames with
  | [] => .error .noOpenBlock c
  | f :: outer =>
    match m f with
    | .ok a f => .ok a { c with frames := f :: outer }
    | .error v f => .error v { c with frames := f :: outer }

/-- The operands a branch to a label takes; label zero is the innermost block. -/
def labelTypes (label : UInt32) : Check (List ValueType) := fun c =>
  match c.frames[label.toNat]? with
  | some f => .ok f.labelTypes c
  | none => .error (.unknown .label label) c

def enter (kind : FrameKind) (type : FuncType) : Check Unit := fun c =>
  .ok () { c with frames := .enter kind type :: c.frames }

/-- Closes the innermost block: its operands are exactly its results. -/
def leave : Check Frame := fun c =>
  match c.frames with
  | [] => .error .noOpenBlock c
  | f :: outer =>
    match Operate.popAll f.endTypes f with
    | .error v f => .error v { c with frames := f :: outer }
    | .ok _ f =>
      if f.operands.isEmpty then .ok f { c with frames := outer }
      else .error .leftover { c with frames := f :: outer }

/-- Gives the results of a closed block to the block around it. -/
def give (types : List ValueType) : Check Unit := fun c =>
  match c.frames with
  | f :: outer =>
    .ok () { c with frames := { f with operands := Frame.stacked types f.operands } :: outer }
  | [] => .ok () { c with given := Frame.stacked types c.given }

/-- Opens a block, which takes its parameters; a conditional one takes its condition first. -/
def openBlock (Γ : Scope) (kind : FrameKind) (type : BlockType) : Check Unit := do
  let signature ← Γ.blockSignature type
  if kind = .if_ then
    let _ ← innermost (Operate.popExpected .i32)
  let _ ← innermost (Operate.popAll signature.params)
  enter kind signature

/-- The innermost block must be conditional; its second part begins. -/
def beginElse : Check Unit := fun c =>
  match c.frames with
  | [] => .error .noOpenBlock c
  | f :: _ =>
    if f.kind = .if_ then
      match leave c with
      | .ok f c => enter .else_ ⟨f.startTypes, f.endTypes⟩ c
      | .error v c => .error v c
    else .error .elseWithoutIf c

/-- Closes the innermost block. A conditional block without a second part is given an empty one, which
has to turn its parameters into its results. -/
def closeBlock : Check Unit := do
  let f ← leave
  if f.kind = .if_ then
    enter .else_ ⟨f.startTypes, f.endTypes⟩
    let _ ← leave
  give f.endTypes

def branch (label : UInt32) : Check Unit := do
  let types ← labelTypes label
  innermost do
    let _ ← Operate.popAll types
    Operate.markUnreachable

def branchIf (label : UInt32) : Check Unit := do
  let _ ← innermost (Operate.popExpected .i32)
  let types ← labelTypes label
  innermost (Operate.apply ⟨types, types⟩)

/-- Each label of a branch table takes as many operands as the default, and finds them on the stack;
the operands it finds are put back. -/
def tableLabels (default : UInt32) (arity : Nat) (labels : List UInt32) : Check Unit := fun c =>
  match labels with
  | [] => .ok () c
  | label :: rest =>
    match labelTypes label c with
    | .error v c => .error v c
    | .ok types c =>
      if types.length ≠ arity then .error (.labelArity label types.length default arity) c
      else
        match innermost (Operate.popAll types >>= Operate.restore) c with
        | .error v c => .error v c
        | .ok _ c => tableLabels default arity rest c

def branchTable (labels : List UInt32) (default : UInt32) : Check Unit := do
  let _ ← innermost (Operate.popExpected .i32)
  let types ← labelTypes default
  tableLabels default types.length labels
  innermost do
    let _ ← Operate.popAll types
    Operate.markUnreachable

def returnFrom (Γ : Scope) : Check Unit :=
  match Γ.returns with
  | none => throw .returnOutsideFunction
  | some types =>
    innermost do
      let _ ← Operate.popAll types
      Operate.markUnreachable

/-- An instruction inside an expression that has not ended. -/
def instruction (Γ : Scope) : Instruction → Check Unit
  | .unreachable => innermost Operate.markUnreachable
  | .block type => openBlock Γ .block type
  | .loop type => openBlock Γ .loop type
  | .if_ type => openBlock Γ .if_ type
  | .else_ => beginElse
  | .end_ => closeBlock
  | .br label => branch label
  | .brIf label => branchIf label
  | .brTable labels default => branchTable labels default
  | .return_ => returnFrom Γ
  | .refIsNull => innermost Operate.refIsNull
  | .drop => do
    let _ ← innermost Operate.pop
  | .select => innermost Operate.select
  | .plain op => do
    let signature ← Γ.signature op
    innermost (Operate.apply signature)

/-- The next instruction of an expression. -/
def step (Γ : Scope) (i : Instruction) : Check Unit := fun c =>
  if c.isEnded then .error (.afterExpression i) c else instruction Γ i c

/-- An expression is complete when all its blocks are closed. -/
def finish : Check Unit := fun c =>
  if c.isEnded then .ok () c else .error (.unclosed c.frames.length) c

end Check

end Wasm
