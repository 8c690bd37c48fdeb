import Wasm.Event.Consumer

/-! # Chained consumers

Behind a head consumer stand any number of others. An event reaches the head first, and the others in
their order once the head has accepted it; the first objection ends its way. Each of the others decides
for itself whether it takes an expression, and hears the instructions of those it took.
-/

namespace Wasm

/-- A chained consumer's state, and whether it took the expression that was begun last. -/
structure Listener (τ : Type) where
  state : τ
  listening : Bool := false

namespace Listener

variable {τ : Type}

def entry (D : Consumer τ) (e : Entry) : Step (Listener τ) Unit := fun l =>
  match D.entry e l.state with
  | .ok _ t => .ok () ⟨t, l.listening⟩
  | .error v t => .error v ⟨t, l.listening⟩

def site (D : Consumer τ) (x : Site) : Step (Listener τ) Unit := fun l =>
  match D.site x l.state with
  | .ok takes t => .ok () ⟨t, takes⟩
  | .error v t => .error v ⟨t, false⟩

/-- What happens inside an expression is heard only by those that took it. -/
def inside (m : Step τ Unit) : Step (Listener τ) Unit := fun l =>
  if l.listening then
    match m l.state with
    | .ok _ t => .ok () ⟨t, true⟩
    | .error v t => .error v ⟨t, true⟩
  else .ok () l

/-- One step for each in order, up to the first objection. -/
def each (step : Step (Listener τ) Unit) : Step (List (Listener τ)) Unit
  | [] => .ok () []
  | l :: rest =>
    match step l with
    | .error v l => .error v (l :: rest)
    | .ok _ l =>
      match each step rest with
      | .ok _ rest => .ok () (l :: rest)
      | .error v rest => .error v (l :: rest)

end Listener

namespace Consumer

variable {σ τ ρ α : Type}

/-- First the head, then, unless it objects, what is behind it. -/
def relay (head : Step σ α) (behind : Step ρ Unit) : Step (σ × ρ) α := fun (s, r) =>
  match head s with
  | .error v s => .error v (s, r)
  | .ok a s =>
    match behind r with
    | .ok _ r => .ok a (s, r)
    | .error v r => .error v (s, r)

/-- A head that takes every expression, and one consumer behind it. -/
def follow (C : Consumer σ) (D : Consumer τ) : Consumer (σ × Listener τ) where
  entry e := relay (C.entry e) (Listener.entry D e)
  site x := relay (C.site x) (Listener.site D x)
  instruction i := relay (C.instruction i) (Listener.inside (D.instruction i))
  exprEnd := relay C.exprEnd (Listener.inside D.exprEnd)
  frame f := fun (s, l) => (C.frame f s, ⟨D.frame f l.state, l.listening⟩)

/-- A head that takes every expression, and any number of consumers behind it. -/
def chain (C : Consumer σ) (D : Consumer τ) : Consumer (σ × List (Listener τ)) where
  entry e := relay (C.entry e) (Listener.each (Listener.entry D e))
  site x := relay (C.site x) (Listener.each (Listener.site D x))
  instruction i := relay (C.instruction i) (Listener.each (Listener.inside (D.instruction i)))
  exprEnd := relay C.exprEnd (Listener.each (Listener.inside D.exprEnd))
  frame f := fun (s, ls) => (C.frame f s, ls.map fun l => ⟨D.frame f l.state, l.listening⟩)

end Consumer

end Wasm
