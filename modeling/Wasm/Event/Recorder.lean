import Wasm.Event.Consumer

/-! # Recorders

A recorder notes the name of everything it receives and takes every expression. It can be told to refuse
one name, which it then objects to instead of noting it.
-/

namespace Wasm

structure Recorder where
  notes : Array String := #[]
  refuses : Option String := none

namespace Recorder

def note (what : String) : Step Recorder Unit := fun r =>
  if r.refuses = some what then .error (.refused what) r
  else .ok () { r with notes := r.notes.push what }

def consumer : Consumer Recorder where
  entry e := note e.name
  site s := do
    note s.name
    pure true
  instruction i := note ("i:" ++ i.mnemonic)
  exprEnd := note "expr_end"

end Recorder

end Wasm
