import Wasm.Violation

/-! # From declarations to types

A declaration means a type when its tags are legal and its size bounds in range. Bounds are looked at
before the element tag of a table, parameters before results, and a global's value tag before its
mutability.
-/

namespace Wasm

/-- The outcome of a check: what it found, or the first rule broken. -/
abbrev Verdict := Except Violation

/-- A check inside a computation with state stops it at a violation and leaves the state alone. -/
instance {σ : Type} : MonadLift Verdict (EStateM Violation σ) where
  monadLift
    | .ok a => pure a
    | .error v => throw v

namespace ValueType

def check (tag : UInt8) : Verdict ValueType :=
  match ofTag? tag with
  | some t => .ok t
  | none => .error (.invalidValueType tag)

/-- All tags in order; the first illegal one is reported. -/
def checkAll : List UInt8 → Verdict (List ValueType)
  | [] => .ok []
  | tag :: tags => do
    let t ← check tag
    let ts ← checkAll tags
    pure (t :: ts)

end ValueType

namespace RefType

def check (tag : UInt8) : Verdict RefType :=
  match ofTag? tag with
  | some t => .ok t
  | none => .error (.notReferenceType tag)

end RefType

namespace FuncDecl

def check (d : FuncDecl) : Verdict FuncType := do
  let params ← ValueType.checkAll d.params
  let results ← ValueType.checkAll d.results
  pure ⟨params, results⟩

end FuncDecl

namespace Limits

/-- Both bounds under the ceiling, and the lower bound not above the upper one. -/
def check (sized : Sized) (l : Limits) : Verdict Unit :=
  if sized.ceiling < l.min then .error (.minimumTooLarge sized l.min)
  else
    match l.max with
    | none => .ok ()
    | some max =>
      if sized.ceiling < max then .error (.maximumTooLarge sized max)
      else if max < l.min then .error (.minimumExceedsMaximum l.min max)
      else .ok ()

end Limits

namespace TableDecl

def check (d : TableDecl) : Verdict TableType := do
  d.limits.check .table
  let element ← RefType.check d.tag
  pure ⟨element, d.limits⟩

end TableDecl

namespace GlobalDecl

def check (d : GlobalDecl) : Verdict GlobalType := do
  let value ← ValueType.check d.tag
  match d.mutability with
  | 0x00 => pure ⟨value, false⟩
  | 0x01 => pure ⟨value, true⟩
  | m => throw (.malformedMutability m)

end GlobalDecl

namespace MemArg

/-- An access may not promise more than the alignment its width makes natural. -/
def checkAlignment (arg : MemArg) (natural : UInt32) : Verdict Unit :=
  if natural < arg.align then .error (.alignment arg.align natural) else .ok ()

end MemArg

end Wasm
