import Wasm.Typing.Signature

/-! # Control frames

An open block: what it takes and gives, the operands pushed since it was opened, and whether the code
that follows in it can be reached. Operands of the blocks around it are out of its reach.

In code that is never reached the operands below the block's own are of unknown type and never run out,
and the types of known operands are not compared.
-/

namespace Wasm

inductive FrameKind where
  | function | block | loop | if_ | else_
deriving DecidableEq, Repr

structure Frame where
  kind : FrameKind
  startTypes : List ValueType
  endTypes : List ValueType
  /-- The operands pushed in this block, the top one first. -/
  operands : List Slot
  unreachable : Bool
deriving DecidableEq, Repr

/-- What is done to the operands of one frame. -/
abbrev Operate := EStateM Violation Frame

namespace Frame

/-- The operands that `types` push on `below`, the last type on top. -/
def stacked (types : List ValueType) (below : List Slot) : List Slot :=
  types.foldl (fun stack t => .known t :: stack) below

/-- A block just opened, with its parameters as operands. -/
def enter (kind : FrameKind) (type : FuncType) : Frame :=
  ⟨kind, type.params, type.results, stacked type.params [], false⟩

/-- What a branch to the block takes: a loop is entered again at its start. -/
def labelTypes (f : Frame) : List ValueType :=
  match f.kind with
  | .loop => f.startTypes
  | _ => f.endTypes

end Frame

namespace Operate

def push (s : Slot) : Operate Unit := fun f => .ok () { f with operands := s :: f.operands }

def pushAll (types : List ValueType) : Operate Unit := fun f =>
  .ok () { f with operands := Frame.stacked types f.operands }

/-- Slots put back, given bottom first. -/
def restore (slots : List Slot) : Operate Unit := fun f =>
  .ok () { f with operands := slots.reverseAux f.operands }

def pop : Operate Slot := fun f =>
  match f.operands with
  | s :: rest => .ok s { f with operands := rest }
  | [] => if f.unreachable then .ok .unknown f else .error .underflow f

/-- Pops an operand of a type; only code that is reached has its types compared. -/
def popExpected (expected : ValueType) : Operate Slot := fun f =>
  match pop f with
  | .error v f => .error v f
  | .ok .unknown f => .ok .unknown f
  | .ok (.known actual) f =>
    if actual ≠ expected ∧ f.unreachable = false then .error (.mismatch expected actual) f
    else .ok (.known actual) f

/-- Pops operands of types given top first, putting them bottom first before those popped earlier. -/
def popOnto (types : List ValueType) (popped : List Slot) : Operate (List Slot) := fun f =>
  match types with
  | [] => .ok popped f
  | t :: rest =>
    match popExpected t f with
    | .ok s f => popOnto rest (s :: popped) f
    | .error v f => .error v f

/-- Pops operands of types given bottom first, the last one first; they come back bottom first. -/
def popAll (types : List ValueType) : Operate (List Slot) := popOnto types.reverse []

/-- Takes the parameters and gives the results of a signature. -/
def apply (type : FuncType) : Operate Unit := do
  let _ ← popAll type.params
  pushAll type.results

/-- What follows in the block is not reached. -/
def markUnreachable : Operate Unit := fun f => .ok () { f with operands := [], unreachable := true }

def isUnreachable : Operate Bool := fun f => .ok f.unreachable f

/-- Two operands of one number or vector type, and a number that chooses between them. -/
def select : Operate Unit := do
  let _ ← popExpected .i32
  let first ← pop
  let second ← pop
  let dead ← isUnreachable
  let chosen := if first = .unknown then second else first
  if dead then push chosen
  else if first ≠ .unknown ∧ second ≠ .unknown ∧ first ≠ second then throw .selectDiffers
  else if first.isNum && second.isNum || first.isVec && second.isVec then push chosen
  else throw (.selectNeedsType first)

/-- Any reference becomes a number. -/
def refIsNull : Operate Unit := do
  let operand ← pop
  let dead ← isUnreachable
  if operand.isRef || dead then push (.known .i32) else throw (.notReference operand)

end Operate

end Wasm
