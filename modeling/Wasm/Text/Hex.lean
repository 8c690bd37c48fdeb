/-! # Hexadecimal text

Lower-case hexadecimal, of numbers and of byte strings. Numbers are written without leading zeros
unless a least width is asked for; byte strings are written two digits a byte.
-/

namespace Wasm.Hex

/-- The digits of `n`, without leading zeros. -/
def digits (n : Nat) : String :=
  String.ofList (Nat.toDigits 16 n)

/-- The digits of `n`, filled with zeros on the left up to `width` digits. -/
def padded (width n : Nat) : String :=
  let text := Nat.toDigits 16 n
  String.ofList (List.replicate (width - text.length) '0' ++ text)

/-- A byte as two digits after `0x`. -/
def tag (b : UInt8) : String :=
  "0x" ++ padded 2 b.toNat

/-- Two digits a byte, nothing between them. -/
def bytes (bs : List UInt8) : String :=
  String.ofList (bs.flatMap fun b => [Nat.digitChar (b.toNat / 16), Nat.digitChar (b.toNat % 16)])

end Wasm.Hex
