import Wasm.Types.Value

/-! # Types of functions, tables, memories and globals

Each comes in two forms: the declaration, with the raw tags a module carries, and the type that the
declaration means once its tags are known to be legal. Size bounds are the same in both.
-/

namespace Wasm

/-- A signature as declared: parameter and result tags. -/
structure FuncDecl where
  params : List UInt8
  results : List UInt8
deriving DecidableEq, Repr

structure FuncType where
  params : List ValueType
  results : List ValueType
deriving DecidableEq, Repr

/-- Size bounds, in table entries or memory pages. Wider than any legal size, so that a bound which is
out of range can be told from one that is not. -/
structure Limits where
  min : UInt64
  max : Option UInt64
deriving DecidableEq, Repr

structure TableDecl where
  tag : UInt8
  limits : Limits
deriving DecidableEq, Repr

structure TableType where
  element : RefType
  limits : Limits
deriving DecidableEq, Repr

structure GlobalDecl where
  tag : UInt8
  mutability : UInt8
deriving DecidableEq, Repr

structure GlobalType where
  value : ValueType
  isMutable : Bool
deriving DecidableEq, Repr

/-- A run of `count` locals that share a tag. -/
structure LocalDecl where
  count : UInt32
  tag : UInt8
deriving DecidableEq, Repr

namespace FuncType

/-- Whether the signature neither takes nor gives anything. -/
def isEmpty (t : FuncType) : Bool := t.params.isEmpty && t.results.isEmpty

def text (t : FuncType) : String :=
  "[" ++ spaced (t.params.map (·.name)) ++ "] -> [" ++ spaced (t.results.map (·.name)) ++ "]"

/-- The declaration that means `t`. -/
def declare (t : FuncType) : FuncDecl := ⟨t.params.map (·.tag), t.results.map (·.tag)⟩

end FuncType

namespace FuncDecl

/-- As `FuncType.text`, with a tag that names no type in hexadecimal. -/
def text (d : FuncDecl) : String :=
  "[" ++ spaced (d.params.map tagName) ++ "] -> [" ++ spaced (d.results.map tagName) ++ "]"

end FuncDecl

namespace Limits

def text (l : Limits) : String :=
  match l.max with
  | some max => "min = " ++ toString l.min ++ ", max = " ++ toString max
  | none => "min = " ++ toString l.min

end Limits

namespace TableType

def text (t : TableType) : String := t.element.name ++ " " ++ t.limits.text

end TableType

namespace TableDecl

def text (d : TableDecl) : String := tagName d.tag ++ " " ++ d.limits.text

end TableDecl

namespace GlobalType

def text (t : GlobalType) : String := (if t.isMutable then "var " else "const ") ++ t.value.name

/-- The declaration that means `t`. -/
def declare (t : GlobalType) : GlobalDecl := ⟨t.value.tag, if t.isMutable then 0x01 else 0x00⟩

end GlobalType

namespace GlobalDecl

/-- As `GlobalType.text`; a mutability byte that is not legal reads as constant. -/
def text (d : GlobalDecl) : String :=
  (if d.mutability == 0x01 then "var " else "const ") ++ tagName d.tag

end GlobalDecl

end Wasm
