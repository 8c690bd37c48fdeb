import Wasm.Text.Hex

/-! # Indented JSON text

Documents of numbers, texts, lists and objects, written one item a line with two blanks of indent a
level. Fields keep the order they are given in, and an empty list or object stays on its line.
-/

namespace Wasm.Text

/-- A document to be written as JSON. -/
inductive Json where
  | number (n : Nat)
  | text (s : String)
  | list (items : List Json)
  | object (fields : List (String × Json))

namespace Json

/-- One character of a JSON text. -/
def escape (c : Char) : String :=
  match c with
  | '"' => "\\\""
  | '\\' => "\\\\"
  | '\n' => "\\n"
  | '\r' => "\\r"
  | '\t' => "\\t"
  | '\x08' => "\\b"
  | '\x0c' => "\\f"
  | _ => if c.toNat < 0x20 then "\\u" ++ Hex.padded 4 c.toNat else c.toString

def quote (s : String) : String :=
  "\"" ++ String.join (s.toList.map escape) ++ "\""

/-- A line break and the indent of `depth` levels. -/
def newline (depth : Nat) : String :=
  "\n" ++ String.ofList (List.replicate (2 * depth) ' ')

/-- Items between brackets, each on a line of its own one level deeper than the brackets. -/
def enclose (depth : Nat) (opening closing : String) (items : List String) : String :=
  if items.isEmpty then opening ++ closing
  else
    opening ++ newline (depth + 1) ++ String.intercalate ("," ++ newline (depth + 1)) items ++
      newline depth ++ closing

mutual

/-- The text of a document whose first line stands at `depth` levels of indent. -/
def prettyAt (depth : Nat) : Json → String
  | number n => toString n
  | text s => quote s
  | list items => enclose depth "[" "]" (prettyItems (depth + 1) items)
  | object fields => enclose depth "\x7b" "\x7d" (prettyFields (depth + 1) fields)

def prettyItems (depth : Nat) : List Json → List String
  | [] => []
  | item :: items => prettyAt depth item :: prettyItems depth items

def prettyFields (depth : Nat) : List (String × Json) → List String
  | [] => []
  | (name, value) :: fields => (quote name ++ ": " ++ prettyAt depth value) :: prettyFields depth fields

end

def pretty (document : Json) : String := prettyAt 0 document

end Json

end Wasm.Text
