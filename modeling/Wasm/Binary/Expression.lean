import Wasm.Binary.Progress

/-! # Decoding expressions

An expression reaches up to the `end_` that closes it, which is found by counting the blocks opened and
closed on the way; nothing else is asked of its instructions here.
-/

namespace Wasm

namespace Instruction

/-- How many blocks are open after an instruction, given how many were before it; none at all when the
instruction closes the expression. -/
def nesting (depth : Nat) : Instruction → Option Nat
  | block _ | loop _ | if_ _ => some (depth + 1)
  | end_ =>
    match depth with
    | 0 => none
    | depth + 1 => some depth
  | _ => some depth

end Instruction

namespace Binary

namespace Decoder

/-- The rest of an expression with `depth` open blocks, after the instructions `before`. -/
def expressionOnto (depth : Nat) (before : Expr) : Decoder Expr := fun c =>
  match decoded : instruction c with
  | .error e d => .error e d
  | .ok i d =>
    have : d.rest.length < c.rest.length := instruction_shrinks decoded
    match i.nesting depth with
    | some depth => expressionOnto depth (before.push i) d
    | none => .ok (before.push i) d
termination_by c => c.rest.length

/-- A whole expression. -/
def expression : Decoder Expr := expressionOnto 0 #[]

end Decoder

end Binary

end Wasm
