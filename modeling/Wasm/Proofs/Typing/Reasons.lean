import Wasm.Proofs.Typing.Moves

/-! # What a rejected instruction is rejected for

Some kinds of violation tell that instructions or entries come in an order that no module has; all others are about a
module's contents. An instruction that stands in an open block is rejected for its contents, apart from a `return` where
there is nothing to return from and vector instructions that carry immediates of another shape.
-/

namespace Wasm

/-- The kinds of violation that no module's contents give rise to. -/
def ViolationKind.disorders : List ViolationKind :=
  [.unexpectedEvent, .multipleStartSections, .unclosedBlock, .instructionAfterEnd, .returnOutsideFunction, .illegalOpcode]

def ViolationKind.isDisorder (kind : ViolationKind) : Bool := disorders.contains kind

/-- A violation by a module's contents. -/
def Violation.Ordinary (v : Violation) : Prop := v.kind.isDisorder = false

/-- The violation does not say in which function it happened. -/
def Violation.Nameless : Violation → Prop
  | .inFunction .. => False
  | _ => True

/-- What the check of a declaration or an index may end with. -/
structure Violation.Simple (v : Violation) : Prop where
  ordinary : v.Ordinary
  nameless : v.Nameless

namespace Verdict

variable {α β : Type} {reasons : Violation → Prop}

/-- A check fails for one of the given reasons, if it does. -/
def Rejects (reasons : Violation → Prop) (x : Verdict α) : Prop := ∀ v, x = .error v → reasons v

theorem Rejects.ok (a : α) : Rejects reasons (.ok a) := by
  intro v failed
  cases failed

theorem Rejects.error {v : Violation} (reason : reasons v) : Rejects reasons (.error v : Verdict α) := by
  intro w failed
  cases failed
  exact reason

theorem Rejects.bind {x : Verdict α} {f : α → Verdict β} (first : Rejects reasons x)
    (second : ∀ a, Rejects reasons (f a)) : Rejects reasons (x >>= f) := by
  cases x with
  | ok a => exact second a
  | error v => exact .error (first v rfl)

theorem Rejects.mono {other : Violation → Prop} {x : Verdict α} (rejects : Rejects reasons x)
    (weaker : ∀ v, reasons v → other v) : Rejects other x := fun v failed => weaker v (rejects v failed)

theorem Rejects.guard {p : Prop} [Decidable p] {v : Violation} {f : PUnit → Verdict α} {x : Verdict α} (reason : reasons v)
    (rest : Rejects reasons x) : Rejects reasons (if p then throw v >>= f else x) := by
  split
  · exact .error reason
  · exact rest

end Verdict

open Verdict

section Raising

variable {ε σ α β : Type} {reasons : ε → Prop} {m : EStateM ε σ α}

/-- A computation fails for one of the given reasons, if it does. -/
def Raises (reasons : ε → Prop) (m : EStateM ε σ α) : Prop := ∀ s e s', m s = .error e s' → reasons e

namespace Raises

/-- A computation that never fails. -/
theorem of_ok (done : ∀ s, Outcome.isOk (m s) = true) : Raises reasons m := by
  intro s e s' failed
  have accepted := done s
  rw [failed] at accepted
  cases accepted

theorem pure (a : α) : Raises reasons (Pure.pure a : EStateM ε σ α) := of_ok fun _ => rfl

theorem throw {e : ε} (reason : reasons e) : Raises reasons (MonadExcept.throw e : EStateM ε σ α) := by
  intro s e' s' failed
  cases failed
  exact reason

theorem bind {f : α → EStateM ε σ β} (first : Raises reasons m) (second : ∀ a, Raises reasons (f a)) :
    Raises reasons (m >>= f) := by
  intro s e s' failed
  cases one : m s with
  | ok a t =>
    rw [Outcome.bind_of_ok one] at failed
    exact second a t e s' failed
  | error e' t =>
    rw [Outcome.bind_of_error one] at failed
    cases failed
    exact first s e s' one

theorem get {f : σ → EStateM ε σ α} (rest : ∀ s, Raises reasons (f s)) : Raises reasons (MonadState.get >>= f) :=
  (of_ok fun _ => rfl).bind rest

theorem fail {e : σ → ε} (reason : ∀ s, reasons (e s)) : Raises reasons (fun s => .error (e s) s : EStateM ε σ α) := by
  intro s e' s' failed
  cases failed
  exact reason s

/-- One of two computations, as the state says. -/
theorem ite {p : σ → Prop} [DecidablePred p] {no : EStateM ε σ α} (first : Raises reasons m) (second : Raises reasons no) :
    Raises reasons fun s => if p s then m s else no s := by
  intro s e s' failed
  dsimp only at failed
  split at failed
  · exact first s e s' failed
  · exact second s e s' failed

/-- A condition that has to hold for the rest to be done. -/
theorem guard {p : Prop} [Decidable p] {e : ε} {f : PUnit → EStateM ε σ α} (reason : reasons e) (rest : Raises reasons m) :
    Raises reasons (if p then MonadExcept.throw e >>= f else m) := by
  split
  · intro s e' s' failed
    cases failed
    exact reason
  · exact rest

theorem last_guard {p : Prop} [Decidable p] {e : ε} (reason : reasons e) :
    Raises reasons (if p then MonadExcept.throw e else Pure.pure PUnit.unit : EStateM ε σ PUnit) := by
  split
  · exact throw reason
  · exact pure _

theorem lift {reasons : Violation → Prop} {x : Verdict α} (rejects : Rejects reasons x) :
    Raises reasons (liftM x : EStateM Violation σ α) := by
  cases x with
  | ok a => exact .pure a
  | error v => exact .throw (rejects v rfl)

theorem nameless {m : EStateM Violation σ α} (raises : Raises Violation.Simple m) : Raises Violation.Nameless m :=
  fun s v s' failed => (raises s v s' failed).nameless

end Raises

end Raising

theorem Violation.simple_unknown (kind : IndexKind) (index : UInt32) : (Violation.unknown kind index).Simple :=
  ⟨by cases kind <;> rfl, trivial⟩

theorem IndexSpace.rejects_find {α : Type} (kind : IndexKind) (entries : Array α) (index : UInt32) :
    Rejects Violation.Simple (find kind entries index) := by
  unfold find
  split
  · exact .ok _
  · exact .error (Violation.simple_unknown kind index)

theorem IndexSpace.rejects_function (s : IndexSpace) (func : UInt32) : Rejects Violation.Simple (s.function func) :=
  (rejects_find _ _ _).bind fun _ => rejects_find _ _ _

theorem IndexSpace.rejects_checkData (s : IndexSpace) (data : UInt32) : Rejects Violation.Simple (s.checkData data) := by
  unfold checkData
  split
  · exact .error ⟨rfl, trivial⟩
  · split
    · exact .ok _
    · exact .error (Violation.simple_unknown _ _)

theorem ValueType.rejects_check (tag : UInt8) : Rejects Violation.Simple (check tag) := by
  unfold check
  split
  · exact .ok _
  · exact .error ⟨rfl, trivial⟩

theorem RefType.rejects_check (tag : UInt8) : Rejects Violation.Simple (check tag) := by
  unfold check
  split
  · exact .ok _
  · exact .error ⟨rfl, trivial⟩

theorem rejects_checkLane (lane lanes : UInt8) : Rejects Violation.Simple (checkLane lane lanes) := by
  unfold checkLane
  split
  · exact .ok _
  · exact .error ⟨rfl, trivial⟩

theorem rejects_checkLanes (lanes : UInt8) (chosen : List UInt8) : Rejects Violation.Simple (checkLanes lanes chosen) := by
  induction chosen with
  | nil => exact .ok _
  | cons lane rest ih => exact (rejects_checkLane lane lanes).bind fun _ => ih

/-- The immediates of a vector instruction are of the shape that its opcode asks for. -/
def Plain.Shaped : Plain → Prop
  | .vector sub => (sub ≠ VectorOp.constOpcode ∧ sub ≠ VectorOp.shuffleOpcode) ∧
      ∃ params results, VectorOp.signature? sub = some (.fixed params results)
  | .vectorLane sub _ => (∃ lanes result, VectorOp.signature? sub = some (.extractLane lanes result)) ∨
      ∃ lanes operand, VectorOp.signature? sub = some (.replaceLane lanes operand)
  | .vectorMemory sub _ => (∃ natural, VectorOp.signature? sub = some (.load natural)) ∨
      ∃ natural, VectorOp.signature? sub = some (.store natural)
  | .vectorMemoryLane sub _ _ => (∃ natural lanes, VectorOp.signature? sub = some (.loadLane natural lanes)) ∨
      ∃ natural lanes, VectorOp.signature? sub = some (.storeLane natural lanes)
  | _ => True

def Instruction.Shaped : Instruction → Prop
  | .plain op => op.Shaped
  | _ => True

namespace Scope

variable (Γ : Scope)

theorem rejects_checkMemory : Rejects Violation.Simple Γ.checkMemory :=
  (IndexSpace.rejects_find _ _ _).bind fun _ => .ok _

theorem rejects_checkAccess (arg : MemArg) (natural : UInt32) : Rejects Violation.Simple (Γ.checkAccess arg natural) := by
  refine Γ.rejects_checkMemory.bind fun _ => ?_
  unfold MemArg.checkAlignment
  split
  · exact .error ⟨rfl, trivial⟩
  · exact .ok _

theorem rejects_tableElement (table : UInt32) : Rejects Violation.Simple (Γ.tableElement table) :=
  (IndexSpace.rejects_find _ _ _).bind fun _ => .ok _

theorem rejects_localType (index : UInt32) : Rejects Violation.Simple (Γ.localType index) := by
  unfold localType
  split
  · exact .ok _
  · exact .error (Violation.simple_unknown _ _)

theorem rejects_global (index : UInt32) : Rejects Violation.Simple (Γ.global index) := by
  unfold Scope.global
  split
  · exact IndexSpace.rejects_find _ _ _
  · exact .error (Violation.simple_unknown _ _)

theorem rejects_checkReference (func : UInt32) : Rejects Violation.Simple (Γ.checkReference func) := by
  refine (Γ.space.rejects_function func).bind fun _ => ?_
  split
  · split
    · exact .ok _
    · exact .error ⟨rfl, trivial⟩
  · exact .ok _

theorem rejects_blockSignature (type : BlockType) : Rejects Violation.Simple (Γ.blockSignature type) := by
  cases type with
  | empty => exact .ok _
  | value tag => exact (ValueType.rejects_check tag).bind fun _ => .ok _
  | indexed type => exact IndexSpace.rejects_find _ _ _

/-- Why a plain instruction has no signature. -/
def Unsigned (op : Plain) (v : Violation) : Prop := v.Ordinary ∨ ¬op.Shaped ∧ ∃ sub, v = .illegalVector sub

theorem rejects_signature (op : Plain) : Rejects (fun v => Unsigned op v ∧ v.Nameless) (Γ.signature op) := by
  have simple (v : Violation) (simple : v.Simple) : Unsigned op v ∧ v.Nameless :=
    ⟨.inl simple.ordinary, simple.nameless⟩
  have given {α : Type} {x : Verdict α} (rejects : Rejects Violation.Simple x) {f : α → Verdict FuncType}
      (rest : ∀ a, Rejects (fun v => Unsigned op v ∧ v.Nameless) (f a)) :
      Rejects (fun v => Unsigned op v ∧ v.Nameless) (x >>= f) :=
    (rejects.mono simple).bind rest
  have done (type : FuncType) : Rejects (fun v => Unsigned op v ∧ v.Nameless) (.ok type) := .ok type
  cases op with
  | nop | i32Const | i64Const | f32Const | f64Const | numeric | v128Const => exact done _
  | call func => exact (Γ.space.rejects_function func).mono simple
  | callIndirect type table =>
    exact given (Γ.rejects_tableElement table) fun _ => .guard ⟨.inl rfl, trivial⟩ <|
      given (IndexSpace.rejects_find _ _ _) fun _ => done _
  | refNull tag => exact given (RefType.rejects_check tag) fun _ => done _
  | refFunc func => exact given (Γ.rejects_checkReference func) fun _ => done _
  | selectTyped tags =>
    rcases tags with _ | ⟨tag, _ | ⟨second, rest⟩⟩
    · exact .error ⟨.inl rfl, trivial⟩
    · exact given (ValueType.rejects_check tag) fun _ => done _
    · exact .error ⟨.inl rfl, trivial⟩
  | localGet index | localSet index | localTee index => exact given (Γ.rejects_localType index) fun _ => done _
  | globalGet index => exact given (Γ.rejects_global index) fun _ => done _
  | globalSet index => exact given (Γ.rejects_global index) fun _ => .guard ⟨.inl rfl, trivial⟩ (done _)
  | tableGet table | tableSet table | tableSize table | tableGrow table | tableFill table =>
    exact given (Γ.rejects_tableElement table) fun _ => done _
  | tableCopy dst src =>
    exact given (Γ.rejects_tableElement dst) fun _ => given (Γ.rejects_tableElement src) fun _ =>
      .guard ⟨.inl rfl, trivial⟩ (done _)
  | tableInit elem table =>
    exact given (Γ.rejects_tableElement table) fun _ => given (IndexSpace.rejects_find _ _ _) fun _ =>
      .guard ⟨.inl rfl, trivial⟩ (done _)
  | elemDrop elem => exact given (IndexSpace.rejects_find _ _ _) fun _ => done _
  | load op arg | store op arg => exact given (Γ.rejects_checkAccess arg _) fun _ => done _
  | memorySize | memoryGrow | memoryFill | memoryCopy => exact given Γ.rejects_checkMemory fun _ => done _
  | memoryInit data =>
    exact given Γ.rejects_checkMemory fun _ => given (Γ.space.rejects_checkData data) fun _ => done _
  | dataDrop data => exact given (Γ.space.rejects_checkData data) fun _ => done _
  | shuffle lanes => exact given (rejects_checkLanes _ _) fun _ => done _
  | vector sub =>
    unfold signature
    dsimp only
    split
    · refine .error ⟨.inr ⟨?_, sub, rfl⟩, trivial⟩
      rintro ⟨⟨notConst, notShuffle⟩, -⟩
      rename_i either
      exact either.elim notConst notShuffle
    · split
      · exact done _
      · rename_i other
        refine .error ⟨.inr ⟨?_, sub, rfl⟩, trivial⟩
        rintro ⟨-, params, results, found⟩
        exact other params results found
  | vectorLane sub lane =>
    unfold signature
    dsimp only
    split
    · exact given (rejects_checkLane lane _) fun _ => done _
    · exact given (rejects_checkLane lane _) fun _ => done _
    · rename_i extract replace
      refine .error ⟨.inr ⟨?_, sub, rfl⟩, trivial⟩
      rintro (⟨lanes, result, found⟩ | ⟨lanes, operand, found⟩)
      · exact extract lanes result found
      · exact replace lanes operand found
  | vectorMemory sub arg =>
    unfold signature
    dsimp only
    split
    · exact given (Γ.rejects_checkAccess arg _) fun _ => done _
    · exact given (Γ.rejects_checkAccess arg _) fun _ => done _
    · rename_i load store
      refine .error ⟨.inr ⟨?_, sub, rfl⟩, trivial⟩
      rintro (⟨natural, found⟩ | ⟨natural, found⟩)
      · exact load natural found
      · exact store natural found
  | vectorMemoryLane sub arg lane =>
    unfold signature
    dsimp only
    split
    · exact given (Γ.rejects_checkAccess arg _) fun _ => given (rejects_checkLane lane _) fun _ => done _
    · exact given (Γ.rejects_checkAccess arg _) fun _ => given (rejects_checkLane lane _) fun _ => done _
    · rename_i load store
      refine .error ⟨.inr ⟨?_, sub, rfl⟩, trivial⟩
      rintro (⟨natural, lanes, found⟩ | ⟨natural, lanes, found⟩)
      · exact load natural lanes found
      · exact store natural lanes found

end Scope

/-- What an instruction in an open block is rejected for, when it is not for its contents. -/
inductive Check.Misfit (Γ : Scope) : Instruction → Violation → Prop where
  | return_ (outside : Γ.returns = none) : Misfit Γ .return_ .returnOutsideFunction
  | vector {op : Plain} (unshaped : ¬op.Shaped) (sub : UInt32) : Misfit Γ (.plain op) (.illegalVector sub)

theorem Check.Objection.ordinary_or_misfit {Γ : Scope} {i : Instruction} {v : Violation} (objection : Objection Γ i v) :
    v.Ordinary ∨ Misfit Γ i v := by
  cases objection with
  | operands mismatch =>
    left
    show v.kind.isDisorder = false
    rw [mismatch]
    rfl
  | label label => exact .inl (Violation.simple_unknown _ _).ordinary
  | blockType _ illegal => exact .inl (Γ.rejects_blockSignature _ v illegal).ordinary
  | else_ => exact .inl rfl
  | return_ outside => exact .inr (.return_ outside)
  | immediates illegal =>
    rcases (Γ.rejects_signature _ v illegal).1 with ordinary | ⟨unshaped, sub, rfl⟩
    · exact .inl ordinary
    · exact .inr (.vector unshaped sub)

end Wasm
