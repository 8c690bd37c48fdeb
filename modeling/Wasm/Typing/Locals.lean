import Wasm.Types.Check

/-! # Local variables

The locals of a function, parameters first, kept as runs of one type. A run records where it stops, so
the number of locals is the last stop, and a local belongs to the first run that stops after its index.
Neighbouring runs differ in type.
-/

namespace Wasm

/-- Locals of one type up to, but not including, index `stop`. -/
structure Run where
  stop : Nat
  type : ValueType
deriving DecidableEq, Repr

structure Locals where
  runs : Array Run := #[]
deriving DecidableEq, Repr

namespace Locals

/-- How many locals there are. -/
def size (l : Locals) : Nat :=
  match l.runs.back? with
  | some run => run.stop
  | none => 0

def isEmpty (l : Locals) : Bool := l.runs.isEmpty

/-- Appends locals of one type, lengthening the last run if it has that type. -/
def extend (l : Locals) (count : Nat) (type : ValueType) : Locals :=
  let run : Run := ⟨l.size + count, type⟩
  match l.runs.back? with
  | some last => if last.type = type then ⟨l.runs.pop.push run⟩ else ⟨l.runs.push run⟩
  | none => ⟨l.runs.push run⟩

/-- Appends `count` locals of one type unless they would be too many. -/
def push (l : Locals) (count : UInt32) (type : ValueType) : Verdict Locals :=
  if maxLocals < l.size + count.toNat then .error (.tooManyLocals (l.size + count.toNat))
  else if count = 0 then .ok l
  else .ok (l.extend count.toNat type)

/-- One local a type. -/
def ofTypes (types : List ValueType) : Locals :=
  types.foldl (fun l type => l.extend 1 type) {}

/-- Declared runs after `l`; each tag is checked just before its run is appended. -/
def declare (l : Locals) : List LocalDecl → Verdict Locals
  | [] => .ok l
  | d :: rest =>
    match ValueType.check d.tag with
    | .error v => .error v
    | .ok type =>
      match l.push d.count type with
      | .error v => .error v
      | .ok l => l.declare rest

def get? (l : Locals) (index : UInt32) : Option ValueType :=
  (l.runs.find? fun run => index.toNat < run.stop).map (·.type)

end Locals

end Wasm
