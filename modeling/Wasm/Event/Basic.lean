import Wasm.Types.Declared
import Wasm.Instruction.Basic

/-! # Entries and expressions of a module

A module is delivered entry by entry, in section order. Some entries stand alone; others are the site of
an expression, whose instructions follow one by one, its closing `end_` last. An item is an entry, or a
site together with its whole expression.
-/

namespace Wasm

inductive ImportDesc where
  | function (type : UInt32)
  | table (d : TableDecl)
  | memory (l : Limits)
  | global (d : GlobalDecl)
deriving DecidableEq, Repr

structure Import where
  source : String
  name : String
  desc : ImportDesc
deriving DecidableEq, Repr

structure Export where
  name : String
  /-- What is exported, as a raw byte. -/
  kind : UInt8
  index : UInt32
deriving DecidableEq, Repr

inductive ElementMode where
  | passive
  | declarative
  | active (table : UInt32)
deriving DecidableEq, Repr

inductive ElementInit where
  | functions (indices : List UInt32)
  /-- One expression an item, each delivered at a site of its own. -/
  | expressions
deriving DecidableEq, Repr

structure ElementSegment where
  tag : UInt8
  mode : ElementMode
  init : ElementInit
deriving DecidableEq, Repr

inductive DataMode where
  | passive
  | active (memory : UInt32)
deriving DecidableEq, Repr

structure DataSegment where
  mode : DataMode
  init : List UInt8
deriving DecidableEq, Repr

/-- What a module declares without an expression. -/
inductive Entry where
  | header (version : UInt32)
  | custom (name : String) (payload : List UInt8)
  | type (d : FuncDecl)
  | imported (i : Import)
  | function (type : UInt32)
  | table (d : TableDecl)
  | memory (l : Limits)
  | exported (e : Export)
  | start (func : UInt32)
  | element (s : ElementSegment)
  | dataCount (count : UInt32)
  | data (s : DataSegment)
  /-- The end of the module. -/
  | finish
deriving DecidableEq, Repr

/-- Where an expression stands. -/
inductive Site where
  /-- The initial value of a global. -/
  | global (d : GlobalDecl)
  /-- Where the last element segment goes in its table. -/
  | elementOffset
  /-- One item of the last element segment. -/
  | elementItem
  /-- The body of the next function. -/
  | code (locals : List LocalDecl)
  /-- Where the last data segment goes in memory. -/
  | dataOffset
deriving DecidableEq, Repr

inductive Item where
  | entry (e : Entry)
  | expr (site : Site) (body : List Instruction)
deriving DecidableEq, Repr

/-- One delivery: an entry, the site of an expression, or what the expression holds. -/
inductive Event where
  | entry (e : Entry)
  | site (s : Site)
  | instruction (i : Instruction)
  | exprEnd
deriving DecidableEq, Repr

/-- A section of a binary module, as its frame announces it: `offset` is where it ends. -/
structure SectionFrame where
  id : UInt8
  size : UInt32
  offset : Nat
deriving DecidableEq, Repr

namespace ElementMode

def isActive : ElementMode → Bool
  | active _ => true
  | _ => false

def text : ElementMode → String
  | passive => "Passive"
  | declarative => "Declarative"
  | active table => "Active \x7b table_index: " ++ toString table ++ " \x7d"

end ElementMode

namespace DataMode

def isActive : DataMode → Bool
  | active _ => true
  | passive => false

def text : DataMode → String
  | passive => "Passive"
  | active memory => "Active \x7b memory_index: " ++ toString memory ++ " \x7d"

end DataMode

namespace Entry

def name : Entry → String
  | header _ => "header"
  | custom .. => "custom"
  | type _ => "type"
  | imported _ => "import"
  | function _ => "function"
  | table _ => "table"
  | memory _ => "memory"
  | exported _ => "export"
  | start _ => "start"
  | element _ => "element"
  | dataCount _ => "data_count"
  | data _ => "data"
  | finish => "end"

end Entry

namespace Site

def name : Site → String
  | global _ => "global"
  | elementOffset => "element_offset"
  | elementItem => "element_item"
  | code _ => "code"
  | dataOffset => "data_offset"

end Site

end Wasm
