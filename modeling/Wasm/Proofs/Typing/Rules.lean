import Wasm.Proofs.Typing.Moves

/-! # The rules of the checker over their primitives

The rules ask little of the state they work on: that operands can be pushed and popped, and blocks entered and left. They
are written here once over any state that can do this. Over the stack of frames they are the checker. Other readings of
the same rules differ from it in a primitive or two, and are compared with it primitive by primitive.
-/

namespace Wasm

open Outcome

/-- What the rules ask of a state. -/
structure Machine (ε σ : Type) where
  /-- How a broken rule is reported. -/
  report : Violation → ε
  isEnded : σ → Bool
  push : Slot → EStateM ε σ Unit
  pop : EStateM ε σ Slot
  /-- Whether the types of operands go uncompared. -/
  exempt : EStateM ε σ Bool
  /-- The kind and the type of the innermost block. -/
  block : EStateM ε σ (FrameKind × FuncType)
  /-- Whether the innermost block has no operands. -/
  bare : EStateM ε σ Bool
  enter : FrameKind → FuncType → EStateM ε σ Unit
  /-- Takes the innermost block away. -/
  exit : EStateM ε σ Unit
  labelTypes : UInt32 → EStateM ε σ (List ValueType)
  markUnreachable : EStateM ε σ Unit
  /-- The expression has ended if no block is open. -/
  settle : EStateM ε σ Unit

namespace Machine

variable {ε σ : Type} (M : Machine ε σ)

def reject {α : Type} (v : Violation) : EStateM ε σ α := throw (M.report v)

def checked {α : Type} : Verdict α → EStateM ε σ α
  | .ok a => pure a
  | .error v => M.reject v

def popExpected (expected : ValueType) : EStateM ε σ Slot := do
  let operand ← M.pop
  let exempt ← M.exempt
  match operand with
  | .unknown => pure .unknown
  | .known actual =>
    if actual ≠ expected ∧ exempt = false then M.reject (.mismatch expected actual) else pure (.known actual)

def popOnto : List ValueType → List Slot → EStateM ε σ (List Slot)
  | [], popped => pure popped
  | t :: rest, popped => do
    let operand ← M.popExpected t
    popOnto rest (operand :: popped)

/-- Operands of types given bottom first, the last one first; they come back bottom first. -/
def popAll (types : List ValueType) : EStateM ε σ (List Slot) := M.popOnto types.reverse []

/-- Operands given bottom first. -/
def restore : List Slot → EStateM ε σ Unit
  | [] => pure ()
  | s :: rest => do
    M.push s
    restore rest

def pushAll (types : List ValueType) : EStateM ε σ Unit := M.restore (types.map .known)

def apply (type : FuncType) : EStateM ε σ Unit := do
  let _ ← M.popAll type.params
  M.pushAll type.results

/-- Takes operands and goes elsewhere. -/
def leaveFor (types : List ValueType) : EStateM ε σ Unit := do
  let _ ← M.popAll types
  M.markUnreachable

def leave : EStateM ε σ (FrameKind × FuncType) := do
  let block ← M.block
  let _ ← M.popAll block.2.results
  let bare ← M.bare
  if bare then
    M.exit
    pure block
  else M.reject .leftover

def openBlock (Γ : Scope) (kind : FrameKind) (type : BlockType) : EStateM ε σ Unit := do
  let signature ← M.checked (Γ.blockSignature type)
  if kind = .if_ then
    let _ ← M.popExpected .i32
  let _ ← M.popAll signature.params
  M.enter kind signature

def beginElse : EStateM ε σ Unit := do
  let block ← M.block
  if block.1 = .if_ then
    let block ← M.leave
    M.enter .else_ block.2
  else M.reject .elseWithoutIf

def closeBlock : EStateM ε σ Unit := do
  let block ← M.leave
  if block.1 = .if_ then
    M.enter .else_ block.2
    let _ ← M.leave
  M.pushAll block.2.results

def branch (label : UInt32) : EStateM ε σ Unit := do
  let types ← M.labelTypes label
  M.leaveFor types

def branchIf (label : UInt32) : EStateM ε σ Unit := do
  let _ ← M.popExpected .i32
  let types ← M.labelTypes label
  M.apply ⟨types, types⟩

def tableLabels (default : UInt32) (arity : Nat) : List UInt32 → EStateM ε σ Unit
  | [] => pure ()
  | label :: rest => do
    let types ← M.labelTypes label
    if types.length ≠ arity then M.reject (.labelArity label types.length default arity)
    else
      let popped ← M.popAll types
      M.restore popped
      tableLabels default arity rest

def branchTable (labels : List UInt32) (default : UInt32) : EStateM ε σ Unit := do
  let _ ← M.popExpected .i32
  let types ← M.labelTypes default
  M.tableLabels default types.length labels
  M.leaveFor types

def returnFrom (Γ : Scope) : EStateM ε σ Unit :=
  match Γ.returns with
  | none => M.reject .returnOutsideFunction
  | some types => M.leaveFor types

def refIsNull : EStateM ε σ Unit := do
  let operand ← M.pop
  let exempt ← M.exempt
  if operand.isRef || exempt then M.push (.known .i32) else M.reject (.notReference operand)

def select : EStateM ε σ Unit := do
  let _ ← M.popExpected .i32
  let first ← M.pop
  let second ← M.pop
  let exempt ← M.exempt
  let chosen := if first = .unknown then second else first
  if exempt then M.push chosen
  else if first ≠ .unknown ∧ second ≠ .unknown ∧ first ≠ second then M.reject .selectDiffers
  else if first.isNum && second.isNum || first.isVec && second.isVec then M.push chosen
  else M.reject (.selectNeedsType first)

def instruction (Γ : Scope) : Instruction → EStateM ε σ Unit
  | .unreachable => M.markUnreachable
  | .block type => M.openBlock Γ .block type
  | .loop type => M.openBlock Γ .loop type
  | .if_ type => M.openBlock Γ .if_ type
  | .else_ => M.beginElse
  | .end_ => do
    M.closeBlock
    M.settle
  | .br label => M.branch label
  | .brIf label => M.branchIf label
  | .brTable labels default => M.branchTable labels default
  | .return_ => M.returnFrom Γ
  | .refIsNull => M.refIsNull
  | .drop => do
    let _ ← M.pop
  | .select => M.select
  | .plain op => do
    let signature ← M.checked (Γ.signature op)
    M.apply signature

def step (Γ : Scope) (i : Instruction) : EStateM ε σ Unit := fun s =>
  if M.isEnded s then .error (M.report (.afterExpression i)) s else M.instruction Γ i s

/-- Instructions one after the other, up to the first that is rejected. -/
def all (Γ : Scope) : List Instruction → EStateM ε σ Unit
  | [] => pure ()
  | i :: rest => do
    M.step Γ i
    all Γ rest

/-- The state after instructions have been delivered, each of them whether or not those before it were accepted. -/
def after (Γ : Scope) (is : List Instruction) (s : σ) : σ := is.foldl (fun s i => left (M.step Γ i s)) s

end Machine

/-! ## The stack of frames -/

namespace Check

/-- The checker's own primitives: every block has its operands to itself. -/
def machine : Machine Violation Checker where
  report := id
  isEnded := Checker.isEnded
  push s := fun c =>
    match c.frames with
    | f :: outer => .ok () { c with frames := { f with operands := s :: f.operands } :: outer }
    | [] => .ok () { c with given := s :: c.given }
  pop := innermost Operate.pop
  exempt := fun c => .ok (c.frames.head?.any (·.unreachable)) c
  block := fun c =>
    match c.frames with
    | f :: _ => .ok (f.kind, ⟨f.startTypes, f.endTypes⟩) c
    | [] => .error .noOpenBlock c
  bare := fun c => .ok (c.frames.head?.all (·.operands.isEmpty)) c
  enter := enter
  exit := fun c => .ok () { c with frames := c.frames.tail }
  labelTypes := labelTypes
  markUnreachable := innermost Operate.markUnreachable
  settle := pure ()

/-- Two computations that do the same where a block is open. -/
def Alike {α : Type} (m n : Check α) : Prop := ∀ f outer given, n ⟨f :: outer, given⟩ = m ⟨f :: outer, given⟩

/-- A computation that leaves a block open if it succeeds. -/
def StaysOpen {α : Type} (m : Check α) : Prop :=
  ∀ f outer given a c', m ⟨f :: outer, given⟩ = .ok a c' → ∃ f' outer' given', c' = ⟨f' :: outer', given'⟩

section Alike

variable {α β : Type} {m n : Check α} {k l : α → Check β}

theorem Confined.staysOpen {reasons : Violation → Prop} (confined : Confined reasons m) : StaysOpen m := by
  intro f outer given a c' done
  obtain ⟨f', state, -⟩ := confined.inside f outer given
  rw [done] at state
  exact ⟨f', outer, given, state⟩

theorem staysOpen_innermost (m : Operate α) : StaysOpen (innermost m) := by
  intro f outer given a c' done
  obtain ⟨f', -, rfl⟩ := innermost_ok_iff.mp done
  exact ⟨f', outer, given, rfl⟩

theorem Alike.bind (first : Alike m n) (open_ : StaysOpen m) (second : ∀ a, Alike (k a) (l a)) :
    Alike (m >>= k) (n >>= l) := by
  intro f outer given
  cases one : m ⟨f :: outer, given⟩ with
  | ok a c =>
    obtain ⟨f', outer', given', rfl⟩ := open_ f outer given a c one
    rw [Outcome.bind_of_ok one, Outcome.bind_of_ok ((first f outer given).trans one)]
    exact second a f' outer' given'
  | error v c =>
    rw [Outcome.bind_of_error one, Outcome.bind_of_error ((first f outer given).trans one)]

theorem Alike.rfl : Alike m m := fun _ _ _ => Eq.refl _

theorem innermost_of_error {m : Operate α} {f g : Frame} {outer : List Frame} {given : List Slot} {v : Violation}
    (failed : m f = .error v g) : innermost m ⟨f :: outer, given⟩ = .error v ⟨g :: outer, given⟩ := by
  unfold innermost
  dsimp only
  rw [failed]

theorem innermost_bind (m : Operate α) (k : α → Operate β) :
    Alike (innermost (m >>= k)) (innermost m >>= fun a => innermost (k a)) := by
  intro f outer given
  cases one : m f with
  | ok a g =>
    have first : innermost m ⟨f :: outer, given⟩ = .ok a ⟨g :: outer, given⟩ := innermost_ok_iff.mpr ⟨g, one, Eq.refl _⟩
    rw [Outcome.bind_of_ok first]
    unfold innermost
    dsimp only
    rw [Outcome.bind_of_ok one]
  | error v g =>
    rw [Outcome.bind_of_error (innermost_of_error one), innermost_of_error (Outcome.bind_of_error one)]

/-- Two things done to the operands of the innermost block, one after the other. -/
theorem Alike.inner {m : Operate α} {k : α → Operate β} (first : Alike (innermost m) n)
    (second : ∀ a, Alike (innermost (k a)) (l a)) : Alike (innermost (m >>= k)) (n >>= l) := by
  intro f outer given
  rw [(first.bind (staysOpen_innermost m) second) f outer given, innermost_bind]

theorem Alike.throw (v : Violation) : Alike (innermost (MonadExcept.throw v : Operate α)) (machine.reject v) :=
  fun _ _ _ => Eq.refl _

end Alike

theorem alike_popExpected (t : ValueType) : Alike (innermost (Operate.popExpected t)) (machine.popExpected t) := by
  intro f outer given
  unfold Machine.popExpected innermost
  dsimp only
  cases popped : Operate.pop f with
  | error v g =>
    have first : machine.pop ⟨f :: outer, given⟩ = .error v ⟨g :: outer, given⟩ := innermost_of_error popped
    rw [Outcome.bind_of_error first, Operate.popExpected, popped]
  | ok s g =>
    have first : machine.pop ⟨f :: outer, given⟩ = .ok s ⟨g :: outer, given⟩ := innermost_ok_iff.mpr ⟨g, popped, rfl⟩
    have second : machine.exempt ⟨g :: outer, given⟩ = .ok g.unreachable ⟨g :: outer, given⟩ := rfl
    rw [Outcome.bind_of_ok first, Outcome.bind_of_ok second, Operate.popExpected, popped]
    cases s with
    | unknown => rfl
    | known u =>
      dsimp only
      split <;> rfl

theorem alike_popOnto (types : List ValueType) (popped : List Slot) :
    Alike (innermost (Operate.popOnto types popped)) (machine.popOnto types popped) := by
  induction types generalizing popped with
  | nil => exact fun _ _ _ => rfl
  | cons t rest ih =>
    rw [Operate.popOnto_cons]
    exact (alike_popExpected t).inner fun s => ih (s :: popped)

theorem alike_popAll (types : List ValueType) : Alike (innermost (Operate.popAll types)) (machine.popAll types) :=
  alike_popOnto types.reverse []

theorem restore_open (slots : List Slot) (f : Frame) (outer : List Frame) (given : List Slot) :
    machine.restore slots ⟨f :: outer, given⟩ =
      .ok () ⟨{ f with operands := slots.reverseAux f.operands } :: outer, given⟩ := by
  induction slots generalizing f with
  | nil => rfl
  | cons s rest ih => exact ih { f with operands := s :: f.operands }

theorem restore_ended (slots given : List Slot) :
    machine.restore slots ⟨[], given⟩ = .ok () ⟨[], slots.reverseAux given⟩ := by
  induction slots generalizing given with
  | nil => rfl
  | cons s rest ih => exact ih (s :: given)

theorem alike_restore (slots : List Slot) : Alike (innermost (Operate.restore slots)) (machine.restore slots) :=
  restore_open slots

theorem reverseAux_known (types : List ValueType) (below : List Slot) :
    (types.map Slot.known).reverseAux below = Frame.stacked types below := by
  rw [List.reverseAux_eq, Frame.stacked_eq, List.map_reverse]

/-- Results are given to the block around, or, behind the end, to the expression. -/
theorem pushAll_eq (types : List ValueType) : machine.pushAll types = give types := by
  funext c
  obtain ⟨frames, given⟩ := c
  cases frames with
  | nil => exact (restore_ended _ _).trans (by rw [reverseAux_known]; rfl)
  | cons f outer => exact (restore_open _ _ _ _).trans (by rw [reverseAux_known]; rfl)

theorem alike_pushAll (types : List ValueType) : Alike (innermost (Operate.pushAll types)) (machine.pushAll types) := by
  intro f outer given
  rw [pushAll_eq]
  rfl

theorem alike_apply (type : FuncType) : Alike (innermost (Operate.apply type)) (machine.apply type) :=
  (alike_popAll type.params).inner fun _ => alike_pushAll type.results

theorem alike_leaveFor (types : List ValueType) :
    Alike (innermost do let _ ← Operate.popAll types; Operate.markUnreachable) (machine.leaveFor types) :=
  (alike_popAll types).inner fun _ => .rfl

theorem alike_exempt : Alike (innermost Operate.isUnreachable) machine.exempt := fun _ _ _ => rfl

theorem alike_push (s : Slot) : Alike (innermost (Operate.push s)) (machine.push s) := fun _ _ _ => rfl

theorem alike_refIsNull : Alike (innermost Operate.refIsNull) machine.refIsNull := by
  refine Alike.rfl.inner fun operand => alike_exempt.inner fun dead => ?_
  split
  · exact alike_push _
  · exact .throw _

theorem alike_select : Alike (innermost Operate.select) machine.select := by
  refine (alike_popExpected .i32).inner fun _ => Alike.rfl.inner fun first => Alike.rfl.inner fun second =>
    alike_exempt.inner fun dead => ?_
  dsimp only
  split
  · exact alike_push _
  · split
    · exact .throw _
    · split
      · exact alike_push _
      · exact .throw _

theorem checked_eq {α : Type} (x : Verdict α) : machine.checked x = (liftM x : Check α) := by
  cases x <;> rfl

theorem staysOpen_labelTypes (label : UInt32) : StaysOpen (labelTypes label) := by
  have confined : Confined (fun _ => True) (labelTypes label) := .labelTypes label trivial
  exact confined.staysOpen

theorem staysOpen_lift {α : Type} (x : Verdict α) : StaysOpen (liftM x : Check α) := by
  have confined : Confined (fun _ => True) (liftM x : Check α) := .lift fun _ _ => trivial
  exact confined.staysOpen

theorem alike_tableLabels (default : UInt32) (arity : Nat) (labels : List UInt32) :
    Alike (tableLabels default arity labels) (machine.tableLabels default arity labels) := by
  induction labels with
  | nil => exact .rfl
  | cons label rest ih =>
    rw [tableLabels_cons, Machine.tableLabels]
    refine Alike.rfl.bind (staysOpen_labelTypes label) fun types => ?_
    split
    · exact fun _ _ _ => rfl
    · have put : Alike (innermost (Operate.popAll types >>= Operate.restore)) (machine.popAll types >>= machine.restore) :=
        (alike_popAll types).inner alike_restore
      have both := put.bind (staysOpen_innermost _) fun _ => ih
      rwa [bind_assoc] at both

theorem staysOpen_tableLabels (default : UInt32) (arity : Nat) (labels : List UInt32) :
    StaysOpen (tableLabels default arity labels) :=
  (confined_tableLabels (Γ := .constant {}) (i := .drop) default arity labels).staysOpen

/-- Leaving a block, with what it was in place of its frame. -/
theorem alike_leave :
    Alike (leave >>= fun f => pure (f.kind, (⟨f.startTypes, f.endTypes⟩ : FuncType))) machine.leave := by
  intro f outer given
  have block : machine.block ⟨f :: outer, given⟩ = .ok (f.kind, ⟨f.startTypes, f.endTypes⟩) ⟨f :: outer, given⟩ := rfl
  rw [Machine.leave, Outcome.bind_of_ok block]
  cases popped : Operate.popAll f.endTypes f with
  | error v g =>
    have failed : leave ⟨f :: outer, given⟩ = .error v ⟨g :: outer, given⟩ := by
      unfold leave
      dsimp only
      rw [popped]
    rw [Outcome.bind_of_error failed,
      Outcome.bind_of_error ((alike_popAll f.endTypes f outer given).trans (innermost_of_error popped))]
  | ok slots g =>
    have done := (alike_popAll f.endTypes f outer given).trans (innermost_ok_iff.mpr ⟨g, popped, rfl⟩)
    have bare : machine.bare ⟨g :: outer, given⟩ = .ok g.operands.isEmpty ⟨g :: outer, given⟩ := rfl
    obtain ⟨ops, rfl⟩ := Operate.popAll_becomes popped
    rw [Outcome.bind_of_ok done, Outcome.bind_of_ok bare]
    cases ops with
    | nil =>
      have closed : leave ⟨f :: outer, given⟩ = .ok { f with operands := [] } ⟨outer, given⟩ :=
        leave_ok_iff.mpr ⟨rfl, rfl, slots, popped⟩
      rw [Outcome.bind_of_ok closed]
      rfl
    | cons s rest =>
      have failed : leave ⟨f :: outer, given⟩ = .error .leftover ⟨{ f with operands := s :: rest } :: outer, given⟩ := by
        unfold leave
        dsimp only
        rw [popped]
        rfl
      rw [Outcome.bind_of_error failed]
      rfl

theorem alike_openBlock (Γ : Scope) (kind : FrameKind) (type : BlockType) :
    Alike (openBlock Γ kind type) (machine.openBlock Γ kind type) := by
  unfold openBlock Machine.openBlock
  rw [checked_eq]
  refine Alike.rfl.bind (staysOpen_lift _) fun signature => ?_
  have rest : Alike (innermost (Operate.popAll signature.params) >>= fun _ => enter kind signature)
      (machine.popAll signature.params >>= fun _ => machine.enter kind signature) :=
    (alike_popAll _).bind (staysOpen_innermost _) fun _ => .rfl
  split
  · exact (alike_popExpected .i32).bind (staysOpen_innermost _) fun _ => rest
  · exact rest

theorem alike_beginElse : Alike beginElse machine.beginElse := by
  intro f outer given
  have block : machine.block ⟨f :: outer, given⟩ = .ok (f.kind, ⟨f.startTypes, f.endTypes⟩) ⟨f :: outer, given⟩ := rfl
  rw [Machine.beginElse, Outcome.bind_of_ok block]
  dsimp only [beginElse]
  split
  · have same := alike_leave f outer given
    cases closed : leave ⟨f :: outer, given⟩ with
    | ok g c =>
      rw [Outcome.bind_of_ok closed] at same
      rw [Outcome.bind_of_ok same]
      rfl
    | error v c =>
      rw [Outcome.bind_of_error closed] at same
      rw [Outcome.bind_of_error same]
  · rfl

theorem alike_closeBlock : Alike closeBlock machine.closeBlock := by
  intro f outer given
  have same := alike_leave f outer given
  rw [closeBlock, Machine.closeBlock]
  cases closed : leave ⟨f :: outer, given⟩ with
  | error v c =>
    rw [Outcome.bind_of_error closed] at same ⊢
    rw [Outcome.bind_of_error same]
  | ok g c =>
    rw [Outcome.bind_of_ok closed] at same ⊢
    rw [Outcome.bind_of_ok same, pushAll_eq]
    dsimp only
    split
    · obtain ⟨rfl, -⟩ := leave_ok_iff.mp closed
      have entered : enter .else_ ⟨g.startTypes, g.endTypes⟩ ⟨outer, given⟩ =
          .ok () ⟨.enter .else_ ⟨g.startTypes, g.endTypes⟩ :: outer, given⟩ := rfl
      have entered' : machine.enter .else_ ⟨g.startTypes, g.endTypes⟩ ⟨outer, given⟩ =
          .ok () ⟨.enter .else_ ⟨g.startTypes, g.endTypes⟩ :: outer, given⟩ := rfl
      rw [Outcome.bind_of_ok entered, Outcome.bind_of_ok entered']
      have again := alike_leave (.enter .else_ ⟨g.startTypes, g.endTypes⟩) outer given
      cases left' : leave ⟨.enter .else_ ⟨g.startTypes, g.endTypes⟩ :: outer, given⟩ with
      | error v c =>
        rw [Outcome.bind_of_error left'] at again ⊢
        rw [Outcome.bind_of_error again]
      | ok h c =>
        rw [Outcome.bind_of_ok left'] at again ⊢
        rw [Outcome.bind_of_ok again]
    · rfl

/-- Over the stack of frames the rules are the checker's. -/
theorem alike_instruction (Γ : Scope) (i : Instruction) : Alike (instruction Γ i) (machine.instruction Γ i) := by
  have index := alike_popExpected .i32
  cases i with
  | unreachable => exact .rfl
  | block type => exact alike_openBlock Γ .block type
  | loop type => exact alike_openBlock Γ .loop type
  | if_ type => exact alike_openBlock Γ .if_ type
  | else_ => exact alike_beginElse
  | end_ =>
    intro f outer given
    show (machine.closeBlock >>= fun _ => pure ()) ⟨f :: outer, given⟩ = closeBlock ⟨f :: outer, given⟩
    rw [bind_pure_unit, alike_closeBlock]
  | br label => exact Alike.rfl.bind (staysOpen_labelTypes label) alike_leaveFor
  | brIf label =>
    exact index.bind (staysOpen_innermost _) fun _ => Alike.rfl.bind (staysOpen_labelTypes label) fun types =>
      alike_apply ⟨types, types⟩
  | brTable labels default =>
    exact index.bind (staysOpen_innermost _) fun _ => Alike.rfl.bind (staysOpen_labelTypes default) fun types =>
      (alike_tableLabels default types.length labels).bind (staysOpen_tableLabels _ _ _) fun _ => alike_leaveFor types
  | return_ =>
    show Alike (returnFrom Γ) (machine.returnFrom Γ)
    unfold returnFrom Machine.returnFrom
    cases Γ.returns with
    | none => exact .rfl
    | some types => exact alike_leaveFor types
  | refIsNull => exact alike_refIsNull
  | drop => exact .rfl
  | select => exact alike_select
  | plain op =>
    have found : Alike (liftM (Γ.signature op)) (machine.checked (Γ.signature op)) := by
      rw [checked_eq]
      exact .rfl
    exact found.bind (staysOpen_lift _) alike_apply

theorem machine_step_eq (Γ : Scope) (i : Instruction) : machine.step Γ i = step Γ i := by
  funext c
  obtain ⟨frames, given⟩ := c
  cases frames with
  | nil => rfl
  | cons f outer => exact alike_instruction Γ i f outer given

end Check

end Wasm
