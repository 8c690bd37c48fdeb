import Std.Data.HashSet
import Wasm.Event.Consumer
import Wasm.Typing.Constant

/-! # State of the module validator

What has to be remembered of a module's entries to judge the next one: the index spaces, how far the
section order has come, which functions were referenced and which names exported, the segment whose
expressions may follow, and the expression that is being checked.
-/

namespace Wasm

/-- The last element segment, for the expressions that belong to it. -/
structure OpenElement where
  type : RefType
  offsetPending : Bool
  /-- Whether its items are expressions. -/
  expressions : Bool
deriving DecidableEq, Repr

/-- The expression being checked; in a constant one, each instruction has to be admitted first. -/
structure OpenExpr where
  scope : Scope
  isConstant : Bool
  checker : Checker

structure Validator where
  space : IndexSpace := {}
  /-- Functions referenced outside of bodies, which bodies may therefore reference. -/
  refs : FuncRefs := {}
  position : Section := .header
  exportNames : Std.HashSet String := {}
  startSeen : Bool := false
  bodiesSeen : Nat := 0
  dataSeen : Nat := 0
  lastElement : Option OpenElement := none
  dataOffsetPending : Bool := false
  expr : Option OpenExpr := none

namespace Validator

/-- Whether the end of the module was reached. -/
def isEnded (v : Validator) : Bool := v.position = .finish

/-- The index of the function that the next body belongs to. -/
def nextBody (v : Validator) : Nat := v.space.importedFunctions + v.bodiesSeen

end Validator

end Wasm
