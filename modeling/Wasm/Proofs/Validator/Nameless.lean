import Wasm.Proofs.Validator.Objections

/-! # The validator names no function

What the validator objects to, it objects to without saying in which function that is: only whoever tells it of a body
knows how to put that before an objection. This holds in every state, also out of order.
-/

namespace Wasm

open Outcome Verdict

/-! ## Operands and blocks -/

namespace Operate

theorem nameless_pop : Raises Violation.Nameless pop := by
  intro f v f' failed
  unfold pop at failed
  split at failed
  · cases failed
  · split at failed
    · cases failed
    · cases failed
      trivial

theorem nameless_popExpected (expected : ValueType) : Raises Violation.Nameless (popExpected expected) := by
  intro f v f' failed
  unfold popExpected at failed
  split at failed
  · rename_i missing
    cases failed
    exact nameless_pop _ _ _ missing
  · cases failed
  · split at failed
    · cases failed
      trivial
    · cases failed

theorem nameless_popOnto (types : List ValueType) (popped : List Slot) :
    Raises Violation.Nameless (popOnto types popped) := by
  induction types generalizing popped with
  | nil => exact .of_ok fun _ => rfl
  | cons t rest ih =>
    rw [popOnto_cons]
    exact (nameless_popExpected t).bind fun _ => ih _

theorem nameless_popAll (types : List ValueType) : Raises Violation.Nameless (popAll types) := nameless_popOnto _ _

theorem nameless_apply (type : FuncType) : Raises Violation.Nameless (apply type) :=
  (nameless_popAll _).bind fun _ => .of_ok fun _ => rfl

theorem nameless_select : Raises Violation.Nameless select := by
  refine (nameless_popExpected _).bind fun _ => nameless_pop.bind fun _ => nameless_pop.bind fun _ =>
    (Raises.of_ok fun _ => rfl).bind fun _ => ?_
  dsimp only
  split
  · exact .of_ok fun _ => rfl
  · split
    · exact .throw trivial
    · split
      · exact .of_ok fun _ => rfl
      · exact .throw trivial

theorem nameless_refIsNull : Raises Violation.Nameless refIsNull := by
  refine nameless_pop.bind fun _ => (Raises.of_ok fun _ => rfl).bind fun _ => ?_
  split
  · exact .of_ok fun _ => rfl
  · exact .throw trivial

end Operate

namespace Check

theorem nameless_innermost {α : Type} {m : Operate α} (raises : Raises Violation.Nameless m) :
    Raises Violation.Nameless (innermost m) := by
  intro c v c' failed
  unfold innermost at failed
  split at failed
  · cases failed
    trivial
  · split at failed
    · cases failed
    · rename_i rejected
      cases failed
      exact raises _ _ _ rejected

theorem nameless_labelTypes (label : UInt32) : Raises Violation.Nameless (labelTypes label) := by
  intro c v c' failed
  unfold labelTypes at failed
  split at failed
  · cases failed
  · cases failed
    trivial

theorem nameless_leave : Raises Violation.Nameless leave := by
  intro c v c' failed
  unfold leave at failed
  split at failed
  · cases failed
    trivial
  · split at failed
    · rename_i rejected
      cases failed
      exact Operate.nameless_popAll _ _ _ _ rejected
    · split at failed
      · cases failed
      · cases failed
        trivial

theorem nameless_openBlock (Γ : Scope) (kind : FrameKind) (type : BlockType) :
    Raises Violation.Nameless (openBlock Γ kind type) := by
  have entered (signature : FuncType) : Raises Violation.Nameless (do
      let _ ← innermost (Operate.popAll signature.params)
      enter kind signature) :=
    (nameless_innermost (Operate.nameless_popAll _)).bind fun _ => .of_ok fun _ => rfl
  refine (Raises.lift (Γ.rejects_blockSignature type)).nameless.bind fun signature => ?_
  split
  · exact (nameless_innermost (Operate.nameless_popExpected _)).bind fun _ => entered signature
  · exact entered signature

theorem nameless_beginElse : Raises Violation.Nameless beginElse := by
  intro c v c' failed
  unfold beginElse at failed
  split at failed
  · cases failed
    trivial
  · split at failed
    · split at failed
      · cases failed
      · rename_i rejected
        cases failed
        exact nameless_leave _ _ _ rejected
    · cases failed
      trivial

theorem nameless_give (types : List ValueType) : Raises Violation.Nameless (give types) := by
  refine .of_ok fun c => ?_
  unfold give
  split <;> rfl

theorem nameless_closeBlock : Raises Violation.Nameless closeBlock := by
  refine nameless_leave.bind fun f => ?_
  split
  · exact (Raises.of_ok fun _ => rfl).bind fun _ => nameless_leave.bind fun _ => nameless_give _
  · exact nameless_give _

/-- A branch takes its operands, and what follows is not reached. -/
theorem nameless_jump (types : List ValueType) : Raises Violation.Nameless (innermost do
    let _ ← Operate.popAll types
    Operate.markUnreachable) :=
  nameless_innermost ((Operate.nameless_popAll types).bind fun _ => .of_ok fun _ => rfl)

theorem nameless_returnFrom (Γ : Scope) : Raises Violation.Nameless (returnFrom Γ) := by
  unfold returnFrom
  split
  · exact .throw trivial
  · exact nameless_jump _

theorem nameless_tableLabels (default : UInt32) (arity : Nat) (labels : List UInt32) :
    Raises Violation.Nameless (tableLabels default arity labels) := by
  induction labels with
  | nil => exact .of_ok fun _ => rfl
  | cons label rest ih =>
    rw [tableLabels_cons]
    refine (nameless_labelTypes label).bind fun types => ?_
    split
    · exact .throw trivial
    · refine (nameless_innermost ?_).bind fun _ => ih
      exact (Operate.nameless_popAll types).bind fun _ => .of_ok fun _ => rfl

theorem nameless_instruction (Γ : Scope) (i : Instruction) : Raises Violation.Nameless (instruction Γ i) := by
  have condition := nameless_innermost (Operate.nameless_popExpected .i32)
  cases i with
  | unreachable => exact nameless_innermost (m := Operate.markUnreachable) (.of_ok fun _ => rfl)
  | block type | loop type | if_ type => exact nameless_openBlock Γ _ type
  | else_ => exact nameless_beginElse
  | end_ => exact nameless_closeBlock
  | br label => exact (nameless_labelTypes label).bind nameless_jump
  | brIf label =>
    exact condition.bind fun _ => (nameless_labelTypes label).bind fun _ =>
      nameless_innermost (Operate.nameless_apply _)
  | brTable labels default =>
    exact condition.bind fun _ => (nameless_labelTypes default).bind fun types =>
      (nameless_tableLabels default types.length labels).bind fun _ => nameless_jump types
  | return_ => exact nameless_returnFrom Γ
  | refIsNull => exact nameless_innermost Operate.nameless_refIsNull
  | drop => exact (nameless_innermost Operate.nameless_pop).bind fun _ => .pure _
  | select => exact nameless_innermost Operate.nameless_select
  | plain op =>
    exact (Raises.lift ((Γ.rejects_signature op).mono fun _ => And.right)).bind fun _ =>
      nameless_innermost (Operate.nameless_apply _)

theorem nameless_step (Γ : Scope) (i : Instruction) : Raises Violation.Nameless (step Γ i) :=
  .ite (.fail fun _ => trivial) (nameless_instruction Γ i)

end Check

/-! ## Entries and expressions -/

namespace Validator

theorem nameless_advance (next : Section) : Raises Violation.Nameless (advance next) :=
  .ite (.fail fun _ => trivial) (.ite (.fail fun _ => trivial) (.of_ok fun _ => rfl))

theorem Sectioned.nameless {α : Type} {m : Step Validator α} {next : Section} (sectioned : Sectioned next m) :
    Raises Violation.Nameless m := by
  obtain ⟨rest, rfl, raises⟩ := sectioned
  exact (nameless_advance next).bind fun _ => raises.nameless

theorem nameless_custom : Raises Violation.Nameless custom :=
  .ite (.fail fun _ => trivial) (.of_ok fun _ => rfl)

theorem nameless_entry (e : Entry) : Raises Violation.Nameless (entry e) := by
  cases e with
  | header version => exact nameless_advance .header
  | custom name payload => exact nameless_custom
  | start func => exact .get fun _ => .guard trivial (sectioned_start func).nameless
  | dataCount count =>
    exact .get fun _ => .guard trivial <| (nameless_advance .dataCount).bind fun _ => .of_ok fun _ => rfl
  | type | imported | function | table | memory | exported | element | data | finish =>
    exact (sectioned_entry rfl (by decide)).nameless

theorem nameless_takeElementOffset : Raises Violation.Nameless takeElementOffset := by
  intro v w v' failed
  unfold takeElementOffset at failed
  split at failed
  · split at failed
    · cases failed
    · cases failed
      trivial
  · cases failed
    trivial

theorem nameless_itemType : Raises Violation.Nameless itemType := by
  intro v w v' failed
  unfold itemType at failed
  split at failed
  · split at failed
    · cases failed
    · cases failed
      trivial
  · cases failed
    trivial

theorem nameless_takeDataOffset : Raises Violation.Nameless takeDataOffset :=
  .ite (.of_ok fun _ => rfl) (.fail fun _ => trivial)

theorem nameless_site (x : Site) : Raises Violation.Nameless (site x) := by
  cases x with
  | global d => exact (sectioned_global d).nameless
  | elementOffset =>
    exact (nameless_advance .element).bind fun _ => nameless_takeElementOffset.bind fun _ => .of_ok fun _ => rfl
  | elementItem => exact (nameless_advance .element).bind fun _ => nameless_itemType.bind fun _ => .of_ok fun _ => rfl
  | code decls => exact (sectioned_code decls).nameless
  | dataOffset =>
    exact (nameless_advance .data).bind fun _ => nameless_takeDataOffset.bind fun _ => .of_ok fun _ => rfl

theorem nameless_constantInstruction (Γ : Scope) (c : Checker) (i : Instruction) :
    Raises Violation.Nameless (constantInstruction Γ c i) := by
  intro v w v' failed
  unfold constantInstruction ConstantExpr.step at failed
  cases permitted : Γ.permit i v.refs with
  | error w' =>
    simp only [permitted] at failed
    cases failed
    exact (Γ.rejects_permit i v.refs w permitted).nameless
  | ok refs =>
    cases stepped : Check.step Γ i c with
    | ok u c' => simp only [permitted, stepped] at failed; cases failed
    | error w' c' =>
      simp only [permitted, stepped] at failed
      cases failed
      exact Check.nameless_step Γ i c w c' stepped

theorem nameless_bodyInstruction (Γ : Scope) (c : Checker) (i : Instruction) :
    Raises Violation.Nameless (bodyInstruction Γ c i) := by
  intro v w v' failed
  unfold bodyInstruction at failed
  split at failed
  · cases failed
  · rename_i stepped
    cases failed
    exact Check.nameless_step Γ i c _ _ stepped

theorem nameless_instruction (i : Instruction) : Raises Violation.Nameless (instruction i) := by
  intro v w v' failed
  unfold instruction at failed
  split at failed
  · cases failed
    trivial
  · split at failed
    · exact nameless_constantInstruction _ _ i _ w v' failed
    · exact nameless_bodyInstruction _ _ i _ w v' failed

theorem nameless_exprEnd : Raises Violation.Nameless exprEnd := by
  intro v w v' failed
  unfold exprEnd Check.finish at failed
  split at failed
  · cases failed
    trivial
  · split at failed
    · cases failed
    · rename_i rejected
      cases failed
      split at rejected
      · cases rejected
      · cases rejected
        trivial

end Validator

end Wasm
