import Wasm.Text.Hex
import Wasm.Text.NonPrinting
import Wasm.Text.Combining

/-! # Quoted text

A text between double quotes, fit for one line of a message: quote, backslash and the common
controls have short escapes, and a character that would not be seen, or would change the one before
it, is written by its code point.
-/

namespace Wasm.Text.Quoted

/-- The code point of `c` in hexadecimal between braces. -/
def codePoint (c : Char) : String :=
  "\\u\x7b" ++ Hex.digits c.toNat ++ "\x7d"

/-- One character of a quoted text. -/
def escape (c : Char) : String :=
  match c with
  | '\x00' => "\\0"
  | '\t' => "\\t"
  | '\r' => "\\r"
  | '\n' => "\\n"
  | '"' => "\\\""
  | '\\' => "\\\\"
  | _ => if Combining.holds c || NonPrinting.holds c then codePoint c else c.toString

/-- `text` between double quotes. -/
def encode (text : String) : String :=
  "\"" ++ String.join (text.toList.map escape) ++ "\""

end Wasm.Text.Quoted
