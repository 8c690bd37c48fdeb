import Wasm.Validator.Entry

/-! # Validation of expressions

An expression is begun at a site, which says what it has to give and what it can see. Initial values,
offsets and element items are constant expressions; function bodies are not.
-/

namespace Wasm

namespace Validator

/-- Begins a constant expression that gives one value of a type. -/
def beginConstant (result : ValueType) : Step Validator Unit := fun v =>
  .ok () { v with expr := some ⟨.constant v.space, true, .start [result]⟩ }

/-- The one offset expression of an active element segment. -/
def takeElementOffset : Step Validator Unit := fun v =>
  match v.lastElement with
  | some e =>
    if e.offsetPending then .ok () { v with lastElement := some { e with offsetPending := false } }
    else .error .noElementForOffset v
  | none => .error .noElementForOffset v

/-- The type of the items of the last element segment. -/
def itemType : Step Validator RefType := fun v =>
  match v.lastElement with
  | some e => if e.expressions then .ok e.type v else .error .noElementForItem v
  | none => .error .noElementForItem v

/-- The one offset expression of an active data segment. -/
def takeDataOffset : Step Validator Unit := fun v =>
  if v.dataOffsetPending then .ok () { v with dataOffsetPending := false }
  else .error .noDataForOffset v

/-- The next function that has no body yet; it has one from now on. -/
def takeBody : Step Validator Nat := fun v =>
  if v.space.definedFunctions ≤ v.bodiesSeen then .error (.bodyWithoutFunction v.bodiesSeen) v
  else .ok v.nextBody { v with bodiesSeen := v.bodiesSeen + 1 }

/-- Begins a function body: its parameters are its first locals. -/
def beginBody (locals : List LocalDecl) : Step Validator Unit := do
  let func ← takeBody
  let type ← lookup (·.function func.toUInt32)
  let locals ← (Locals.ofTypes type.params).declare locals
  modify fun v =>
    { v with
      expr := some ⟨.function v.space type.results locals v.refs, false, .start type.results⟩ }

/-- Every expression is taken. -/
def site : Site → Step Validator Unit
  | .global d => do
    advance .global
    let t ← d.check
    extend (·.addGlobal t)
    beginConstant t.value
  | .elementOffset => do
    advance .element
    takeElementOffset
    beginConstant .i32
  | .elementItem => do
    advance .element
    let type ← itemType
    beginConstant (.ref type)
  | .code locals => do
    advance .code
    beginBody locals
  | .dataOffset => do
    advance .data
    takeDataOffset
    beginConstant .i32

/-- An instruction of a constant expression. -/
def constantInstruction (Γ : Scope) (checker : Checker) (i : Instruction) : Step Validator Unit :=
  fun v =>
    match ConstantExpr.step Γ i ⟨v.refs, checker⟩ with
    | .ok _ e => .ok () { v with refs := e.refs, expr := some ⟨Γ, true, e.checker⟩ }
    | .error violation e =>
      .error violation { v with refs := e.refs, expr := some ⟨Γ, true, e.checker⟩ }

/-- An instruction of a function body. -/
def bodyInstruction (Γ : Scope) (checker : Checker) (i : Instruction) : Step Validator Unit :=
  fun v =>
    match Check.step Γ i checker with
    | .ok _ checker => .ok () { v with expr := some ⟨Γ, false, checker⟩ }
    | .error violation checker => .error violation { v with expr := some ⟨Γ, false, checker⟩ }

def instruction (i : Instruction) : Step Validator Unit := fun v =>
  match v.expr with
  | none => .error .noOpenBlock v
  | some e =>
    if e.isConstant then constantInstruction e.scope e.checker i { v with expr := none }
    else bodyInstruction e.scope e.checker i { v with expr := none }

/-- The end of an expression, after which none is being checked. -/
def exprEnd : Step Validator Unit := fun v =>
  match v.expr with
  | none => .error .noOpenBlock v
  | some e =>
    match Check.finish e.checker with
    | .ok _ _ => .ok () { v with expr := none }
    | .error violation _ => .error violation v

/-- The validator as a consumer. -/
def consumer : Consumer Validator where
  entry := entry
  site x := do
    site x
    pure true
  instruction := instruction
  exprEnd := exprEnd

end Validator

end Wasm
