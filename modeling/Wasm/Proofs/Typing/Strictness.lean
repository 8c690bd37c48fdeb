import Wasm.Proofs.Typing.Rules

/-! # Comparing types in code that is never reached

In code that is never reached the checker takes known operands of any type. The strict checker compares their types
there too and is otherwise the same. Rule by rule, the two differ in nothing but this: where they do differ, the code is
not reached, and it is the strict checker that finds a type mismatch.
-/

namespace Wasm

open Outcome

/-- The innermost block holds code that is never reached. -/
def Checker.isDead (c : Checker) : Bool := c.frames.head?.any (·.unreachable)

namespace Check

/-- The checker that compares the types of known operands in all code. -/
def strict : Machine Violation Checker := { machine with exempt := pure false }

/-- A computation that does not lead from code that is reached to code that is not. -/
def StaysLive {α : Type} (m : Check α) : Prop := ∀ c a c', m c = .ok a c' → c'.isDead = true → c.isDead = true

/-- Two computations that do the same, except that the first may find a type mismatch in code that is never reached. -/
def Stricter {α : Type} (m n : Check α) : Prop :=
  ∀ c, n c = m c ∨ c.isDead = true ∧ ∃ v c', m c = .error v c' ∧ v.kind = .typeMismatch

section Composition

variable {α β : Type} {m n : Check α} {k l : α → Check β}

theorem StaysLive.bind (first : StaysLive m) (second : ∀ a, StaysLive (k a)) : StaysLive (m >>= k) := by
  intro c b c' done dead
  obtain ⟨a, d, one, two⟩ := bind_ok_iff.mp done
  exact first c a d one (second a d b c' two dead)

/-- A computation that changes nothing. -/
theorem StaysLive.of_reading (same : ∀ c a c', m c = .ok a c' → c' = c) : StaysLive m := by
  intro c a c' done dead
  rwa [← same c a c' done]

theorem StaysLive.pure (a : α) : StaysLive (Pure.pure a) := by
  refine .of_reading fun c b c' done => ?_
  cases done
  rfl

theorem StaysLive.reject (v : Violation) : StaysLive (strict.reject v : Check α) := by
  intro c a c' done
  cases done

theorem StaysLive.checked (x : Verdict α) : StaysLive (strict.checked x) := by
  cases x with
  | ok a => exact .pure a
  | error v => exact .reject v

theorem Stricter.rfl : Stricter m m := fun _ => .inl (Eq.refl _)

theorem Stricter.bind (first : Stricter m n) (live : StaysLive m) (second : ∀ a, Stricter (k a) (l a)) :
    Stricter (m >>= k) (n >>= l) := by
  intro c
  rcases first c with same | ⟨dead, v, d, failed, mismatch⟩
  · cases one : m c with
    | ok a d =>
      rw [bind_of_ok one, bind_of_ok (same.trans one)]
      rcases second a d with same | ⟨dead, failed⟩
      · exact .inl same
      · exact .inr ⟨live c a d one dead, failed⟩
    | error v d =>
      rw [bind_of_error one, bind_of_error (same.trans one)]
      exact .inl (Eq.refl _)
  · exact .inr ⟨dead, v, d, bind_of_error failed, mismatch⟩

/-- What follows is the same, so it may lead anywhere. -/
theorem Stricter.followed (first : Stricter m n) (k : α → Check β) : Stricter (m >>= k) (n >>= k) := by
  intro c
  rcases first c with same | ⟨dead, v, d, failed, mismatch⟩
  · left
    show EStateM.bind n k c = EStateM.bind m k c
    unfold EStateM.bind
    rw [same]
  · exact .inr ⟨dead, v, d, bind_of_error failed, mismatch⟩

/-- A rule that asks whether types go uncompared: where they are compared it does what it does otherwise, or it finds a
type mismatch. -/
theorem stricter_exempt {k : Bool → Check β}
    (compares : ∀ c, k true c = k false c ∨ ∃ v c', k false c = .error v c' ∧ v.kind = .typeMismatch) :
    Stricter (strict.exempt >>= k) (machine.exempt >>= k) := by
  intro c
  have uncompared : machine.exempt c = .ok c.isDead c := Eq.refl _
  have compared : strict.exempt c = .ok false c := Eq.refl _
  rw [bind_of_ok uncompared, bind_of_ok compared]
  cases dead : c.isDead with
  | false => exact .inl (Eq.refl _)
  | true =>
    rcases compares c with same | mismatch
    · exact .inl same
    · exact .inr ⟨Eq.refl _, mismatch⟩

end Composition

/-! ## Operands -/

theorem staysLive_pop : StaysLive strict.pop := by
  rintro ⟨frames, given⟩ s c' done dead
  cases frames with
  | nil => cases done
  | cons f outer =>
    obtain ⟨f', popped, rfl⟩ := innermost_ok_iff.mp done
    obtain ⟨_, _, rfl⟩ | ⟨_, _, _, rfl⟩ := Operate.pop_cases popped
    · exact dead
    · exact dead

theorem staysLive_push (s : Slot) : StaysLive (strict.push s) := by
  rintro ⟨frames, given⟩ _ c' pushed dead
  cases frames with
  | nil => cases pushed; exact dead
  | cons f outer => cases pushed; exact dead

theorem staysLive_restore (slots : List Slot) : StaysLive (strict.restore slots) := by
  induction slots with
  | nil => exact .pure ()
  | cons s rest ih => exact (staysLive_push s).bind fun _ => ih

theorem staysLive_popExpected (t : ValueType) : StaysLive (strict.popExpected t) := by
  refine staysLive_pop.bind fun operand => (StaysLive.pure false).bind fun exempt => ?_
  cases operand with
  | unknown => exact .pure _
  | known actual =>
    dsimp only
    split
    · exact .reject _
    · exact .pure _

theorem staysLive_popOnto (types : List ValueType) (popped : List Slot) : StaysLive (strict.popOnto types popped) := by
  induction types generalizing popped with
  | nil => exact .pure popped
  | cons t rest ih => exact (staysLive_popExpected t).bind fun s => ih (s :: popped)

theorem staysLive_popAll (types : List ValueType) : StaysLive (strict.popAll types) := staysLive_popOnto types.reverse []

theorem staysLive_labelTypes (label : UInt32) : StaysLive (strict.labelTypes label) := by
  refine .of_reading fun c types c' found => ?_
  change labelTypes label c = _ at found
  unfold labelTypes at found
  split at found
  · cases found; rfl
  · cases found

theorem stricter_popExpected (t : ValueType) : Stricter (strict.popExpected t) (machine.popExpected t) := by
  refine Stricter.rfl.bind staysLive_pop fun operand => stricter_exempt fun c => ?_
  cases operand with
  | unknown => exact .inl rfl
  | known actual =>
    by_cases same : actual = t
    · left
      simp [same]
    · right
      refine ⟨.mismatch t actual, c, ?_, rfl⟩
      simp only [same, ne_eq, not_false_eq_true, and_self, if_true]
      rfl

theorem stricter_popOnto (types : List ValueType) (popped : List Slot) :
    Stricter (strict.popOnto types popped) (machine.popOnto types popped) := by
  induction types generalizing popped with
  | nil => exact .rfl
  | cons t rest ih => exact (stricter_popExpected t).bind (staysLive_popExpected t) fun s => ih (s :: popped)

theorem stricter_popAll (types : List ValueType) : Stricter (strict.popAll types) (machine.popAll types) :=
  stricter_popOnto types.reverse []

/-- Pushing compares nothing. -/
theorem restore_strict (slots : List Slot) : strict.restore slots = machine.restore slots := by
  induction slots with
  | nil => rfl
  | cons s rest ih => rw [Machine.restore, Machine.restore, ih]; rfl

theorem pushAll_strict (types : List ValueType) : strict.pushAll types = machine.pushAll types := restore_strict _

theorem stricter_apply (type : FuncType) : Stricter (strict.apply type) (machine.apply type) := by
  unfold Machine.apply
  rw [pushAll_strict]
  exact (stricter_popAll type.params).followed _

theorem stricter_leaveFor (types : List ValueType) : Stricter (strict.leaveFor types) (machine.leaveFor types) :=
  (stricter_popAll types).followed _

theorem stricter_refIsNull : Stricter strict.refIsNull machine.refIsNull := by
  refine Stricter.rfl.bind staysLive_pop fun operand => stricter_exempt fun c => ?_
  cases ref : operand.isRef with
  | true => exact .inl rfl
  | false => exact .inr ⟨_, c, rfl, rfl⟩

theorem stricter_select : Stricter strict.select machine.select := by
  refine (stricter_popExpected .i32).bind (staysLive_popExpected .i32) fun _ => ?_
  refine Stricter.rfl.bind staysLive_pop fun first => Stricter.rfl.bind staysLive_pop fun second => ?_
  refine stricter_exempt fun c => ?_
  simp only [if_true, Bool.false_eq_true, if_false]
  generalize (if first = .unknown then second else first) = chosen
  split
  · exact .inr ⟨_, c, rfl, rfl⟩
  · split
    · exact .inl rfl
    · exact .inr ⟨_, c, rfl, rfl⟩

/-! ## Blocks -/

theorem staysLive_block : StaysLive strict.block := by
  rintro ⟨frames, given⟩ block c' found dead
  cases frames with
  | nil => cases found
  | cons f outer => cases found; exact dead

theorem stricter_leave : Stricter strict.leave machine.leave :=
  Stricter.rfl.bind staysLive_block fun block => (stricter_popAll block.2.results).followed _

theorem stricter_openBlock (Γ : Scope) (kind : FrameKind) (type : BlockType) :
    Stricter (strict.openBlock Γ kind type) (machine.openBlock Γ kind type) := by
  have found : Stricter (strict.checked (Γ.blockSignature type)) (machine.checked (Γ.blockSignature type)) := .rfl
  refine found.bind (.checked _) fun signature => ?_
  have rest : Stricter (strict.popAll signature.params >>= fun _ => strict.enter kind signature)
      (machine.popAll signature.params >>= fun _ => machine.enter kind signature) := (stricter_popAll _).followed _
  split
  · exact (stricter_popExpected .i32).bind (staysLive_popExpected .i32) fun _ => rest
  · exact rest

theorem stricter_beginElse : Stricter strict.beginElse machine.beginElse := by
  refine Stricter.rfl.bind staysLive_block fun block => ?_
  split
  · exact stricter_leave.followed _
  · exact .rfl

/-- A block that was just entered holds code that is reached, so it is left in the same way. -/
theorem enter_leave_strict (kind : FrameKind) (type : FuncType) :
    (machine.enter kind type >>= fun _ => machine.leave) = (strict.enter kind type >>= fun _ => strict.leave) := by
  funext c
  have entered : machine.enter kind type c = .ok () { c with frames := .enter kind type :: c.frames } := rfl
  have entered' : strict.enter kind type c = .ok () { c with frames := .enter kind type :: c.frames } := rfl
  rw [bind_of_ok entered, bind_of_ok entered']
  rcases stricter_leave { c with frames := .enter kind type :: c.frames } with same | ⟨dead, -⟩
  · exact same
  · cases dead

theorem stricter_closeBlock : Stricter strict.closeBlock machine.closeBlock := by
  have second (block : FrameKind × FuncType) (next : Check Unit) :
      (machine.enter .else_ block.2 >>= fun _ => machine.leave >>= fun _ => next) =
        (strict.enter .else_ block.2 >>= fun _ => strict.leave >>= fun _ => next) := by
    have same := congrArg (· >>= fun _ => next) (enter_leave_strict .else_ block.2)
    simpa only [bind_assoc] using same
  unfold Machine.closeBlock
  simp only [second, pushAll_strict]
  exact stricter_leave.followed _

/-! ## Steps and runs -/

theorem staysLive_tableLabels (default : UInt32) (arity : Nat) (labels : List UInt32) :
    StaysLive (strict.tableLabels default arity labels) := by
  induction labels with
  | nil => exact .pure ()
  | cons label rest ih =>
    refine (staysLive_labelTypes label).bind fun types => ?_
    split
    · exact .reject _
    · exact (staysLive_popAll types).bind fun popped => (staysLive_restore popped).bind fun _ => ih

theorem stricter_tableLabels (default : UInt32) (arity : Nat) (labels : List UInt32) :
    Stricter (strict.tableLabels default arity labels) (machine.tableLabels default arity labels) := by
  induction labels with
  | nil => exact .rfl
  | cons label rest ih =>
    refine Stricter.bind .rfl (staysLive_labelTypes label) fun types => ?_
    split
    · exact .rfl
    · refine (stricter_popAll types).bind (staysLive_popAll types) fun popped => ?_
      rw [← restore_strict]
      exact Stricter.rfl.bind (staysLive_restore popped) fun _ => ih

theorem stricter_instruction (Γ : Scope) (i : Instruction) :
    Stricter (strict.instruction Γ i) (machine.instruction Γ i) := by
  have index := stricter_popExpected .i32
  have indexed := staysLive_popExpected .i32
  have label (n : UInt32) : Stricter (strict.labelTypes n) (machine.labelTypes n) := .rfl
  cases i with
  | unreachable => exact .rfl
  | block type => exact stricter_openBlock Γ .block type
  | loop type => exact stricter_openBlock Γ .loop type
  | if_ type => exact stricter_openBlock Γ .if_ type
  | else_ => exact stricter_beginElse
  | end_ => exact stricter_closeBlock.followed _
  | br n => exact (label n).bind (staysLive_labelTypes n) stricter_leaveFor
  | brIf n =>
    exact index.bind indexed fun _ => (label n).bind (staysLive_labelTypes n) fun types => stricter_apply ⟨types, types⟩
  | brTable labels default =>
    exact index.bind indexed fun _ => (label default).bind (staysLive_labelTypes default) fun types =>
      (stricter_tableLabels default types.length labels).bind (staysLive_tableLabels _ _ _) fun _ =>
        stricter_leaveFor types
  | return_ =>
    show Stricter (strict.returnFrom Γ) (machine.returnFrom Γ)
    unfold Machine.returnFrom
    cases Γ.returns with
    | none => exact .rfl
    | some types => exact stricter_leaveFor types
  | refIsNull => exact stricter_refIsNull
  | drop => exact .rfl
  | select => exact stricter_select
  | plain op =>
    have found : Stricter (strict.checked (Γ.signature op)) (machine.checked (Γ.signature op)) := .rfl
    exact found.bind (.checked _) stricter_apply

/-- The two checkers do the same with an instruction, except that the strict one may find a type mismatch where the code
is not reached. -/
theorem stricter_step (Γ : Scope) (i : Instruction) : Stricter (strict.step Γ i) (step Γ i) := by
  rw [← machine_step_eq]
  intro c
  unfold Machine.step
  show (if c.isEnded then _ else _) = (if c.isEnded then _ else _) ∨ _ ∧ ∃ v c', (if c.isEnded then _ else _) = _ ∧ _
  split
  · exact .inl rfl
  · exact stricter_instruction Γ i c

/-- The strict checker over a whole expression, its end included. -/
def strictExpression (Γ : Scope) (is : List Instruction) : Check Unit := do
  strict.all Γ is
  finish

/-- The strict checker rejects an instruction, for a type mismatch in code that is never reached. -/
structure Overcautious (Γ : Scope) (i : Instruction) (c : Checker) : Prop where
  dead : c.isDead = true
  mismatch : ∃ v c', strict.step Γ i c = .error v c' ∧ v.kind = .typeMismatch

/-- No instruction is met while the innermost block holds code that is never reached. -/
def Alive (Γ : Scope) : List Instruction → Checker → Prop
  | [], _ => True
  | i :: rest, c => c.isDead = false ∧ ∀ c', step Γ i c = .ok () c' → Alive Γ rest c'

variable {Γ : Scope}

theorem overcautious_of_ne {i : Instruction} {c : Checker} (differ : step Γ i c ≠ strict.step Γ i c) :
    Overcautious Γ i c := by
  rcases stricter_step Γ i c with same | ⟨dead, mismatch⟩
  · exact absurd same differ
  · exact ⟨dead, mismatch⟩

theorem step_of_strict {i : Instruction} {c c' : Checker} (accepted : strict.step Γ i c = .ok () c') :
    step Γ i c = .ok () c' := by
  rcases stricter_step Γ i c with same | ⟨-, v, d, failed, -⟩
  · exact same.trans accepted
  · rw [failed] at accepted
    cases accepted

/-- Runs that both checkers have in common end where the strict one rejects an instruction. -/
theorem all_eq_or_overcautious (is : List Instruction) (c : Checker) :
    all Γ is c = strict.all Γ is c ∨ ∃ before i rest d, is = before ++ i :: rest ∧
      strict.all Γ before c = .ok () d ∧ all Γ before c = .ok () d ∧ Overcautious Γ i d := by
  induction is generalizing c with
  | nil => exact .inl rfl
  | cons i rest ih =>
    by_cases same : step Γ i c = strict.step Γ i c
    · cases one : strict.step Γ i c with
      | error v d =>
        left
        rw [all, Machine.all, bind_of_error one, bind_of_error (same.trans one)]
      | ok u d =>
        rcases ih d with equal | ⟨before, j, after, e, rfl, accepted, accepts, parts⟩
        · left
          rw [all, Machine.all, bind_of_ok one, bind_of_ok (same.trans one), equal]
        · refine .inr ⟨i :: before, j, after, e, rfl, ?_, ?_, parts⟩
          · rw [Machine.all, bind_of_ok one, accepted]
          · rw [all, bind_of_ok (same.trans one), accepts]
    · exact .inr ⟨[], i, rest, c, rfl, rfl, rfl, overcautious_of_ne same⟩

theorem all_of_strict {is : List Instruction} {c c' : Checker} (accepted : strict.all Γ is c = .ok () c') :
    all Γ is c = .ok () c' := by
  induction is generalizing c with
  | nil => exact accepted
  | cons i rest ih =>
    obtain ⟨_, d, one, more⟩ := bind_ok_iff.mp accepted
    exact all_cons_ok_iff.mpr ⟨d, step_of_strict one, ih more⟩

theorem all_eq_of_alive {is : List Instruction} {c : Checker} (alive : Alive Γ is c) :
    all Γ is c = strict.all Γ is c := by
  induction is generalizing c with
  | nil => rfl
  | cons i rest ih =>
    obtain ⟨live, alive⟩ := alive
    have same : step Γ i c = strict.step Γ i c := by
      by_contra differ
      have dead := (overcautious_of_ne differ).dead
      rw [live] at dead
      cases dead
    cases one : strict.step Γ i c with
    | error v d => rw [all, Machine.all, bind_of_error one, bind_of_error (same.trans one)]
    | ok u d =>
      rw [all, Machine.all, bind_of_ok one, bind_of_ok (same.trans one)]
      exact ih (alive d (same.trans one))

/-- What the checker leaves uncompared is left so in code that is never reached only: it follows the strict checker as
long as that accepts; where the two first differ, the code is not reached and the strict checker finds a type mismatch,
so that where one of them accepts and the other rejects, it is the strict checker that rejects; and they do the same
where all code is reached. -/
theorem relaxation_confined_to_dead_code (Γ : Scope) (results : List ValueType) :
    (∀ is c, strict.all Γ is (.start results) = .ok () c → all Γ is (.start results) = .ok () c) ∧
    (∀ is, all Γ is (.start results) ≠ strict.all Γ is (.start results) →
      ∃ before i rest c, is = before ++ i :: rest ∧ strict.all Γ before (.start results) = .ok () c ∧
        all Γ before (.start results) = .ok () c ∧ Overcautious Γ i c) ∧
    (∀ before i c d, all Γ before (.start results) = .ok () c → strict.all Γ before (.start results) = .ok () d →
      c = d ∧ (isOk (step Γ i c) ≠ isOk (strict.step Γ i d) → Overcautious Γ i c ∧ isOk (step Γ i c) = true)) ∧
    (∀ is c, strictExpression Γ is (.start results) = .ok () c → expression Γ is (.start results) = .ok () c) ∧
    ∀ is, Alive Γ is (.start results) → all Γ is (.start results) = strict.all Γ is (.start results) ∧
      expression Γ is (.start results) = strictExpression Γ is (.start results) := by
  refine ⟨fun is c => all_of_strict, fun is differ => ?_, fun before i c d accepts accepted => ?_, fun is c done => ?_,
    fun is alive => ?_⟩
  · exact (all_eq_or_overcautious is _).resolve_left differ
  · obtain rfl : c = d := by
      rw [all_of_strict accepted] at accepts
      cases accepts
      rfl
    refine ⟨rfl, fun verdicts => ?_⟩
    have parts : Overcautious Γ i c := overcautious_of_ne fun same => verdicts (congrArg isOk same)
    obtain ⟨v, c', failed, -⟩ := parts.mismatch
    rw [failed] at verdicts
    exact ⟨parts, Bool.eq_true_of_not_eq_false verdicts⟩
  · obtain ⟨_, d, accepted, finished⟩ := bind_ok_iff.mp done
    exact bind_ok_iff.mpr ⟨(), d, all_of_strict accepted, finished⟩
  · have same := all_eq_of_alive alive
    refine ⟨same, ?_⟩
    show EStateM.bind _ _ _ = EStateM.bind _ _ _
    unfold EStateM.bind
    rw [same]

-- a number of another type is taken behind `unreachable`, and only there
example :
    isOk (expression (.constant {}) [.unreachable, .plain (.f32Const 0), .brIf 0, .end_] (.start [])) = true ∧
      isOk (strictExpression (.constant {}) [.unreachable, .plain (.f32Const 0), .brIf 0, .end_] (.start [])) = false ∧
      isOk (expression (.constant {}) [.plain (.f32Const 0), .brIf 0, .end_] (.start [])) = false := by
  decide

end Check

end Wasm
