import Wasm.Event.Basic
import Wasm.Violation

/-! # Consumers of a module

A consumer receives a module's entries and the instructions of its expressions, one at a time, and may
object to any of them. It may also decline an expression, whose instructions are then not delivered to
it. Its state is what it has received so far; an objection undoes nothing.
-/

namespace Wasm

/-- One delivery to a consumer with state `σ`. -/
abbrev Step (σ : Type) := EStateM Violation σ

structure Consumer (σ : Type) where
  entry : Entry → Step σ Unit
  /-- An expression begins; the answer is whether the consumer takes it. -/
  site : Site → Step σ Bool
  instruction : Instruction → Step σ Unit
  /-- The expression is complete. -/
  exprEnd : Step σ Unit
  /-- A producer of a binary module tells its consumer where sections lie; nobody can object. -/
  frame : SectionFrame → σ → σ := fun _ s => s

namespace Consumer

variable {σ τ : Type}

/-- The consumer that accepts every entry and declines every expression. -/
def idle : Consumer Unit where
  entry _ := pure ()
  site _ := pure false
  instruction _ := pure ()
  exprEnd := pure ()

/-- A whole expression, its end included. -/
def feed (C : Consumer σ) : List Instruction → Step σ Unit
  | [] => C.exprEnd
  | i :: rest => fun s =>
    match C.instruction i s with
    | .ok _ s => C.feed rest s
    | .error v s => .error v s

/-- An item; its expression is delivered if the consumer takes it. -/
def item (C : Consumer σ) : Item → Step σ Unit
  | .entry e => C.entry e
  | .expr site body => do
    let takes ← C.site site
    if takes then C.feed body

/-- Items in order, up to the first objection. -/
def items (C : Consumer σ) : List Item → Step σ Unit
  | [] => pure ()
  | i :: rest => fun s =>
    match C.item i s with
    | .ok _ s => C.items rest s
    | .error v s => .error v s

/-- A single event; the answer is whether an expression that it begins is taken. -/
def event (C : Consumer σ) : Event → Step σ Bool
  | .entry e => do
    C.entry e
    pure false
  | .site s => C.site s
  | .instruction i => do
    C.instruction i
    pure false
  | .exprEnd => do
    C.exprEnd
    pure false

/-- Acts on the left part of an alternative. -/
def onLeft {α : Type} (m : Step σ α) (s : σ) : EStateM.Result Violation (σ ⊕ τ) α :=
  match m s with
  | .ok a s => .ok a (.inl s)
  | .error v s => .error v (.inl s)

/-- Acts on the right part of an alternative. -/
def onRight {α : Type} (m : Step τ α) (t : τ) : EStateM.Result Violation (σ ⊕ τ) α :=
  match m t with
  | .ok a t => .ok a (.inr t)
  | .error v t => .error v (.inr t)

/-- One of two consumers, as the state says. -/
def either (C : Consumer σ) (D : Consumer τ) : Consumer (σ ⊕ τ) where
  entry e
    | .inl s => onLeft (C.entry e) s
    | .inr t => onRight (D.entry e) t
  site x
    | .inl s => onLeft (C.site x) s
    | .inr t => onRight (D.site x) t
  instruction i
    | .inl s => onLeft (C.instruction i) s
    | .inr t => onRight (D.instruction i) t
  exprEnd
    | .inl s => onLeft C.exprEnd s
    | .inr t => onRight D.exprEnd t
  frame f
    | .inl s => .inl (C.frame f s)
    | .inr t => .inr (D.frame f t)

end Consumer

end Wasm
