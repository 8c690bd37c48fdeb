import Std.Data.TreeSet
import Wasm.Typing.IndexSpace
import Wasm.Typing.Locals

/-! # Scopes

What one expression can see: the index spaces, its locals, the results of the function it is the body
of, and the functions that may be referenced. A constant expression sees no locals and only imported
globals; it returns from nothing and may reference every function.
-/

namespace Wasm

/-- Function indices that a module mentions outside of function bodies. -/
abbrev FuncRefs := Std.TreeSet UInt32

structure Scope where
  space : IndexSpace
  /-- How many globals, from the first, are visible. -/
  visibleGlobals : Nat
  locals : Locals
  /-- The results that `return` gives, inside a function. -/
  returns : Option (List ValueType)
  /-- The functions that may be referenced, where that is restricted. -/
  declared : Option FuncRefs

namespace Scope

/-- The scope of a function body; `locals` are the parameters and the declared locals. -/
def function (space : IndexSpace) (results : List ValueType) (locals : Locals)
    (declared : FuncRefs) : Scope :=
  ⟨space, space.globals.size, locals, some results, some declared⟩

/-- The scope of an initial value or offset. -/
def constant (space : IndexSpace) : Scope := ⟨space, space.importedGlobals, {}, none, none⟩

def localType (Γ : Scope) (index : UInt32) : Verdict ValueType :=
  match Γ.locals.get? index with
  | some t => .ok t
  | none => .error (.unknown .localVariable index)

def global (Γ : Scope) (index : UInt32) : Verdict GlobalType :=
  if index.toNat < Γ.visibleGlobals then Γ.space.global index else .error (.unknown .global index)

/-- A referenced function exists and, where that is restricted, is declared. -/
def checkReference (Γ : Scope) (func : UInt32) : Verdict Unit := do
  let _ ← Γ.space.function func
  match Γ.declared with
  | some declared => if declared.contains func then pure () else throw (.undeclaredReference func)
  | none => pure ()

end Scope

end Wasm
