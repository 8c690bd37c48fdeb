import Wasm.Event.Consumer

/-! # Log lines

What happens to a module can be told line by line. The telling stands beside the work and not in it: a
consumer comes with a report, which says what there is to tell about an event in a given state, and the
narrated consumer collects the reports while it does what the consumer does.
-/

namespace Wasm

inductive LogLevel where
  | info | debug | trace
deriving DecidableEq, Repr

structure LogLine where
  level : LogLevel
  text : String
deriving DecidableEq, Repr

namespace LogLevel

def name : LogLevel → String
  | info => "INFO"
  | debug => "DEBUG"
  | trace => "TRACE"

/-- How talkative one has to be to show a line of the level. -/
def verbosity : LogLevel → Nat
  | info => 1
  | debug => 2
  | trace => 3

end LogLevel

namespace LogLine

def debug (text : String) : LogLine := ⟨.debug, text⟩

/-- The line for an instruction that the type checker is given. -/
def checking (i : Instruction) : LogLine := ⟨.trace, "validate: " ++ i.text⟩

/-- The line for a section whose frame was read. -/
def framed (f : SectionFrame) : LogLine :=
  debug ("section " ++ toString f.id ++ ", " ++ toString f.size ++ " bytes at offset " ++
    toString f.offset)

def render (l : LogLine) : String := l.level.name ++ " " ++ l.text

end LogLine

/-- A consumer's state with what was told about it. -/
structure Narrated (σ : Type) where
  state : σ
  log : Array LogLine := #[]

/-- What there is to tell about an event, given whether it was accepted and the state after it. -/
abbrev Report (σ : Type) := Event → (accepted : Bool) → σ → List LogLine

namespace Report

/-- Nothing to tell. -/
def silent {σ : Type} : Report σ := fun _ _ _ => []

end Report

namespace Narrated

variable {σ α : Type}

/-- Takes a step and tells what there is to tell about it. -/
def tell (lines : Bool → σ → List LogLine) (m : Step σ α) : Step (Narrated σ) α := fun ⟨s, log⟩ =>
  match m s with
  | .ok a s => .ok a ⟨s, log ++ lines true s⟩
  | .error v s => .error v ⟨s, log ++ lines false s⟩

end Narrated

namespace Consumer

variable {σ : Type}

/-- Does what `C` does and keeps the log that `report` tells. -/
def narrated (C : Consumer σ) (report : Report σ) : Consumer (Narrated σ) where
  entry e := Narrated.tell (report (.entry e)) (C.entry e)
  site x := Narrated.tell (report (.site x)) (C.site x)
  instruction i := Narrated.tell (report (.instruction i)) (C.instruction i)
  exprEnd := Narrated.tell (report .exprEnd) C.exprEnd
  frame f := fun ⟨s, log⟩ => ⟨C.frame f s, log.push (.framed f)⟩

end Consumer

end Wasm
