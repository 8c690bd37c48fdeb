import Wasm.Typing.Checker

/-! # Constant expressions

Initial values and offsets are type checked like any expression, after each instruction was admitted: it
is one of the few that a constant expression may hold, and a global that it reads cannot change. The
functions that admitted instructions reference count as declared for function bodies.
-/

namespace Wasm

namespace Scope

/-- Admits an instruction to a constant expression and adds the function that it references. -/
def permit (Γ : Scope) (i : Instruction) (refs : FuncRefs) : Verdict FuncRefs :=
  if i.isConstant = false then .error (.notConstant i)
  else
    match i with
    | .plain (.refFunc func) => do
      let _ ← Γ.space.function func
      pure (refs.insert func)
    | .plain (.globalGet index) => do
      let g ← Γ.global index
      if g.isMutable then throw (.mutableGlobal index)
      pure refs
    | _ => pure refs

end Scope

/-- The state of a constant expression: the references collected, and the type checker. -/
structure ConstantExpr where
  refs : FuncRefs
  checker : Checker

namespace ConstantExpr

/-- An expression that gives one value of a type. -/
def start (refs : FuncRefs) (result : ValueType) : ConstantExpr := ⟨refs, .start [result]⟩

def step (Γ : Scope) (i : Instruction) : EStateM Violation ConstantExpr Unit := fun e =>
  match Γ.permit i e.refs with
  | .error v => .error v e
  | .ok refs =>
    match Check.step Γ i e.checker with
    | .ok _ checker => .ok () ⟨refs, checker⟩
    | .error v checker => .error v ⟨refs, checker⟩

def finish : EStateM Violation ConstantExpr Unit := fun e =>
  match Check.finish e.checker with
  | .ok _ checker => .ok () ⟨e.refs, checker⟩
  | .error v checker => .error v ⟨e.refs, checker⟩

end ConstantExpr

end Wasm
