import Wasm.Text.Hex

/-! # Hexadecimal floating-point text

A binary floating-point number is written exactly, from its bits: a leading `0x1`, the fraction in
hexadecimal aligned to the left without trailing zeros, and the power of two with its sign. A
subnormal number is normalised first, so its leading digit is a one too.
-/

namespace Wasm.Text

/-- The widths of a binary interchange format. -/
structure FloatFormat where
  exponentBits : Nat
  fractionBits : Nat
deriving DecidableEq, Repr

namespace FloatFormat

def single : FloatFormat := ⟨8, 23⟩
def double : FloatFormat := ⟨11, 52⟩

variable (format : FloatFormat)

def bias : Nat := (1 <<< (format.exponentBits - 1)) - 1

/-- The exponent field of infinities and NaNs. -/
def topExponent : Nat := (1 <<< format.exponentBits) - 1

def negative (bits : Nat) : Bool :=
  (bits >>> (format.exponentBits + format.fractionBits)) % 2 == 1

def exponent (bits : Nat) : Nat :=
  (bits >>> format.fractionBits) % (1 <<< format.exponentBits)

def fraction (bits : Nat) : Nat :=
  bits % (1 <<< format.fractionBits)

def isNaN (bits : Nat) : Bool :=
  format.exponent bits == format.topExponent && format.fraction bits != 0

def isZero (bits : Nat) : Bool :=
  format.exponent bits == 0 && format.fraction bits == 0

/-- Equality of the numbers that two bit patterns stand for: a NaN equals nothing, and the two
zeros are equal. -/
def sameValue (a b : Nat) : Bool :=
  !format.isNaN a && !format.isNaN b && (a == b || format.isZero a && format.isZero b)

/-- The digits of a fraction after the point, with the point, or nothing for a zero fraction. The
fraction is moved left to a whole number of digits. -/
def fractionText (value : Nat) : String :=
  let places := (format.fractionBits + 3) / 4
  let aligned := Hex.padded places (value <<< (4 * places - format.fractionBits))
  let shown := (aligned.toList.reverse.dropWhile (· == '0')).reverse
  if shown.isEmpty then "" else "." ++ String.ofList shown

/-- A power of two with its sign always written. -/
def powerText (power : Int) : String :=
  if power < 0 then "p-" ++ toString power.natAbs else "p+" ++ toString power.natAbs

def magnitudeText (bits : Nat) : String :=
  let exponent := format.exponent bits
  let fraction := format.fraction bits
  if exponent == format.topExponent then
    if fraction == 0 then "inf"
    else if fraction == 1 <<< (format.fractionBits - 1) then "nan"
    else "nan:0x" ++ Hex.digits fraction
  else if exponent == 0 then
    if fraction == 0 then "0x0p+0"
    else
      let leading := fraction.log2
      let rest := (fraction - (1 <<< leading)) <<< (format.fractionBits - leading)
      let power : Int := (leading : Int) - ((format.bias - 1 + format.fractionBits : Nat) : Int)
      "0x1" ++ format.fractionText rest ++ powerText power
  else "0x1" ++ format.fractionText fraction ++ powerText ((exponent : Int) - (format.bias : Int))

/-- The text of a bit pattern; a set sign bit is shown also for zero and NaN. -/
def text (bits : Nat) : String :=
  (if format.negative bits then "-" else "") ++ format.magnitudeText bits

end FloatFormat

end Wasm.Text
