import Wasm.Event.Log
import Wasm.Validator.Site

/-! # What the validator tells

One line for most entries once they are accepted; an import is told as soon as its place in the section
order is taken. Of an expression every instruction is told that the type checker is given.
-/

namespace Wasm

namespace Validator

/-- The line for an accepted entry, after which `v` is the state. -/
def entryText (v : Validator) : Entry → Option String
  | .header version => some ("module version " ++ toString version)
  | .custom name payload =>
    some ("custom section " ++ Text.Quoted.encode name ++ ", " ++ toString payload.length ++ " bytes")
  | .type d => some ("type " ++ toString (v.space.types.size - 1) ++ ": " ++ d.text)
  | .table d => some ("table " ++ toString (v.space.tables.size - 1) ++ ": " ++ d.text)
  | .memory l => some ("memory: " ++ l.text)
  | .element s =>
    some ("element segment " ++ toString (v.space.elements.size - 1) ++ ": " ++ tagName s.tag ++
      " " ++ s.mode.text)
  | .data s =>
    some ("data segment " ++ toString (v.dataSeen - 1) ++ ": " ++ toString s.init.length ++
      " bytes " ++ s.mode.text)
  | .finish =>
    some ("module valid: " ++ toString v.space.functions.size ++ " functions, " ++
      toString v.space.globals.size ++ " globals")
  | .imported _ | .function _ | .exported _ | .start _ | .dataCount _ => none

/-- The line for a body that was begun, after which `v` is the state. -/
def bodyText (v : Validator) : String :=
  let func := v.nextBody - 1
  let type :=
    match v.space.function func.toUInt32 with
    | .ok type => type.text
    | .error _ => ""
  let locals :=
    match v.expr with
    | some e => e.scope.locals.size
    | none => 0
  "function " ++ toString func ++ " " ++ type ++ ", " ++ toString locals ++ " locals"

/-- The line for an expression that was begun at a site, after which `v` is the state. -/
def siteText (v : Validator) : Site → Option String
  | .global d => some ("global " ++ toString (v.space.globals.size - 1) ++ ": " ++ d.text)
  | .code _ => some v.bodyText
  | .elementOffset | .elementItem | .dataOffset => none

/-- An instruction reaches the type checker unless a constant expression may not hold it. -/
def isChecked (v : Validator) (i : Instruction) : Bool :=
  match v.expr with
  | none => false
  | some e => !e.isConstant || (e.scope.permit i v.refs).isOk

def report : Report Validator
  | .entry (.imported i), _, v =>
    if v.position = .imports then [.debug ("import " ++ i.source ++ "." ++ i.name)] else []
  | .entry e, true, v => (v.entryText e).toList.map .debug
  | .site x, true, v => (v.siteText x).toList.map .debug
  | .instruction i, _, v => if v.isChecked i then [.checking i] else []
  | .entry _, false, _ | .site _, false, _ | .exprEnd, _, _ => []

end Validator

end Wasm
