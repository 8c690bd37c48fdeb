import Wasm.Text.Json
import Wasm.Tree.Basic

/-! # Summaries

An overview of a module: its declarations as text, its functions with the number of instructions in
their bodies, and how many segments it has.
-/

namespace Wasm

namespace Tree

structure FunctionSummary where
  index : Nat
  typeIndex : UInt32
  /-- How many instructions the body has; none while there is no body. -/
  instructions : Nat
deriving DecidableEq, Repr

structure ExportSummary where
  name : String
  kind : String
  index : UInt32
deriving DecidableEq, Repr

structure Summary where
  version : UInt32
  types : List String
  imports : List String
  functions : List FunctionSummary
  tables : List String
  memories : List String
  globals : List String
  exports : List ExportSummary
  start : Option UInt32
  elements : Nat
  data : Nat
  customs : List String
deriving DecidableEq, Repr

end Tree

namespace ImportDesc

def isFunction : ImportDesc → Bool
  | function _ => true
  | _ => false

def text : ImportDesc → String
  | function type => "func (type " ++ toString type ++ ")"
  | table d => "table " ++ d.text
  | memory l => "memory " ++ l.text
  | global d => "global " ++ d.text

end ImportDesc

namespace Import

def text (i : Import) : String := i.source ++ "." ++ i.name ++ " " ++ i.desc.text

end Import

namespace Export

def kindName (e : Export) : String :=
  match e.kind with
  | 0x00 => "func"
  | 0x01 => "table"
  | 0x02 => "memory"
  | 0x03 => "global"
  | _ => "unknown"

end Export

namespace Tree

/-- Functions that have a body are numbered after the imported ones. -/
def importedFunctions (t : Tree) : Nat := t.imports.countP (·.desc.isFunction)

def bodySize (t : Tree) (place : Nat) : Nat :=
  match t.code[place]? with
  | some body => body.instructions.size
  | none => 0

def summary (t : Tree) : Summary where
  version := t.version
  types := t.types.toList.map (·.text)
  imports := t.imports.toList.map (·.text)
  functions := t.functions.toList.zipIdx.map fun (type, place) =>
    ⟨t.importedFunctions + place, type, t.bodySize place⟩
  tables := t.tables.toList.map (·.text)
  memories := t.memories.toList.map (·.text)
  globals := t.globals.toList.map (·.decl.text)
  exports := t.exports.toList.map fun e => ⟨e.name, e.kindName, e.index⟩
  start := t.start
  elements := t.elements.size
  data := t.data.size
  customs := t.customs.toList.map (·.1)

namespace FunctionSummary

def document (f : FunctionSummary) : Text.Json :=
  .object [("index", .number f.index), ("type_index", .number f.typeIndex.toNat),
    ("instructions", .number f.instructions)]

end FunctionSummary

namespace ExportSummary

def document (e : ExportSummary) : Text.Json :=
  .object [("name", .text e.name), ("kind", .text e.kind), ("index", .number e.index.toNat)]

end ExportSummary

namespace Summary

/-- The summary as a document; a module without a start function has no such field. -/
def document (s : Summary) : Text.Json :=
  .object <|
    [("version", .number s.version.toNat),
      ("types", .list (s.types.map .text)),
      ("imports", .list (s.imports.map .text)),
      ("functions", .list (s.functions.map (·.document))),
      ("tables", .list (s.tables.map .text)),
      ("memories", .list (s.memories.map .text)),
      ("globals", .list (s.globals.map .text)),
      ("exports", .list (s.exports.map (·.document)))] ++
    s.start.toList.map (fun func => ("start", .number func.toNat)) ++
    [("elements", .number s.elements),
      ("data", .number s.data),
      ("customs", .list (s.customs.map .text))]

end Summary

end Tree

end Wasm
