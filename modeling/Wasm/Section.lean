/-! # Sections of a module

The positions a module's entries take, in the order they have to come in.
-/

namespace Wasm

inductive Section where
  | header | type | imports | function | table | memory | global | exports | start | element
  | dataCount | code | data | finish
deriving DecidableEq, Repr

namespace Section

def name : Section → String
  | header => "Header"
  | type => "Type"
  | imports => "Import"
  | function => "Function"
  | table => "Table"
  | memory => "Memory"
  | global => "Global"
  | exports => "Export"
  | start => "Start"
  | element => "Element"
  | dataCount => "DataCount"
  | code => "Code"
  | data => "Data"
  | finish => "End"

/-- The place in the order: the header is first and the end of the module last. -/
def rank : Section → Nat
  | header => 0
  | type => 1
  | imports => 2
  | function => 3
  | table => 4
  | memory => 5
  | global => 6
  | exports => 7
  | start => 8
  | element => 9
  | dataCount => 10
  | code => 11
  | data => 12
  | finish => 13

/-- The section that an identifier of the binary format announces. The identifiers follow the order of
sections, but for the number of data segments, which got the last one. -/
def ofId? : UInt8 → Option Section
  | 1 => some type
  | 2 => some imports
  | 3 => some function
  | 4 => some table
  | 5 => some memory
  | 6 => some global
  | 7 => some exports
  | 8 => some start
  | 9 => some element
  | 10 => some code
  | 11 => some data
  | 12 => some dataCount
  | _ => none

end Section

end Wasm
