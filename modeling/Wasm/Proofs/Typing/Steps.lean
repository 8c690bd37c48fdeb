import Wasm.Typing.Checker
import Wasm.Proofs.Typing.Operands

/-! # Steps of the checker

What it means for the checker to accept an instruction while a block is open, for the instructions that open,
divide and close blocks, and the run of the checker over a list of instructions. The other instructions act
on the operands of the innermost block only.
-/

namespace Wasm

namespace Check

/-- Instructions one after the other. -/
def all (Γ : Scope) : List Instruction → Check Unit
  | [] => pure ()
  | i :: rest => do
    step Γ i
    all Γ rest

/-- A whole expression, its end included. -/
def expression (Γ : Scope) (is : List Instruction) : Check Unit := do
  all Γ is
  finish

/-- An expression of the given results is accepted, every instruction of it and its end. -/
def Accepts (Γ : Scope) (results : List ValueType) (is : List Instruction) : Prop :=
  ∃ c, expression Γ is (.start results) = .ok () c

variable {Γ : Scope}

theorem all_cons_ok_iff {i : Instruction} {rest : List Instruction} {c c' : Checker} {u : Unit} :
    all Γ (i :: rest) c = .ok u c' ↔ ∃ d, step Γ i c = .ok () d ∧ all Γ rest d = .ok u c' := by
  simp only [all, Outcome.bind_ok_iff]
  exact ⟨fun ⟨_, d, one, more⟩ => ⟨d, one, more⟩, fun ⟨d, one, more⟩ => ⟨(), d, one, more⟩⟩

theorem all_append_ok_iff {first second : List Instruction} {c c' : Checker} {u : Unit} :
    all Γ (first ++ second) c = .ok u c' ↔ ∃ d, all Γ first c = .ok () d ∧ all Γ second d = .ok u c' := by
  induction first generalizing c with
  | nil =>
    constructor
    · intro done
      exact ⟨c, rfl, done⟩
    · rintro ⟨d, ⟨⟩, done⟩
      exact done
  | cons i rest ih =>
    simp only [List.cons_append, all_cons_ok_iff, ih]
    constructor
    · rintro ⟨d, one, e, more, last⟩
      exact ⟨e, ⟨d, one, more⟩, last⟩
    · rintro ⟨e, ⟨d, one, more⟩, last⟩
      exact ⟨d, one, e, more, last⟩

theorem expression_cons_ok_iff {i : Instruction} {rest : List Instruction} {c c' : Checker} {u : Unit} :
    expression Γ (i :: rest) c = .ok u c' ↔ ∃ d, step Γ i c = .ok () d ∧ expression Γ rest d = .ok u c' := by
  simp only [expression, Outcome.bind_ok_iff, all_cons_ok_iff]
  constructor
  · rintro ⟨_, e, ⟨d, one, more⟩, finished⟩
    exact ⟨d, one, (), e, more, finished⟩
  · rintro ⟨d, one, _, e, more, finished⟩
    exact ⟨(), e, ⟨d, one, more⟩, finished⟩

theorem innermost_ok_iff {α : Type} {m : Operate α} {f : Frame} {outer : List Frame} {given : List Slot}
    {a : α} {c' : Checker} :
    innermost m ⟨f :: outer, given⟩ = .ok a c' ↔ ∃ f', m f = .ok a f' ∧ c' = ⟨f' :: outer, given⟩ := by
  unfold innermost
  dsimp only
  cases m f with
  | ok b g =>
    constructor
    · rintro ⟨⟩
      exact ⟨g, rfl, rfl⟩
    · rintro ⟨_, ⟨⟩, rfl⟩
      rfl
  | error v g => simp

/-- What branches to the open blocks take, the innermost first. -/
def labels (frames : List Frame) : List (List ValueType) := frames.map (·.labelTypes)

theorem labelTypes_ok_iff {label : UInt32} {types : List ValueType} {c c' : Checker} :
    labelTypes label c = .ok types c' ↔ (labels c.frames)[label.toNat]? = some types ∧ c = c' := by
  unfold labelTypes labels
  rw [List.getElem?_map]
  cases c.frames[label.toNat]? <;> simp

/-- Labels stay the same while code is checked inside their blocks. -/
theorem labels_of_becomes {f f' : Frame} (outer : List Frame) (kept : f.Becomes f') :
    labels (f' :: outer) = labels (f :: outer) := by
  simp only [labels, List.map_cons, kept.labelTypes]

end Check

/-- The operands of a frame are exactly its results. -/
def Frame.Closes (f : Frame) : Prop :=
  ∃ slots f', Operate.popAll f.endTypes f = .ok slots f' ∧ f'.operands = []

theorem Frame.Fits.closes {f : Frame} (fits : f.Fits f.endTypes) : f.Closes := by
  rw [← List.nil_append f.endTypes] at fits
  obtain ⟨slots, ops, done, _, below⟩ := Operate.popAll_of_fits fits
  exact ⟨slots, _, done, Slot.allFit_nil.mp below⟩

/-- Where code is reached, a frame that closes holds its results. -/
theorem Frame.Closes.eq_of_holds {f : Frame} {types : List ValueType} (closes : f.Closes)
    (held : f.Holds types) : types = f.endTypes := by
  obtain ⟨slots, f', done, bare⟩ := closes
  obtain ⟨rest, rfl, below, _⟩ := Operate.popAll_of_holds held done
  have none : f'.Fits [] := Slot.allFit_nil.mpr bare
  rw [← below.fits_iff.mp none, List.nil_append]

/-- What a frame holds once the results of a block inside it were given to it. -/
def Frame.receive (f : Frame) (types : List ValueType) : Frame :=
  { f with operands := stacked types f.operands }

theorem Frame.receive_becomes (f : Frame) (types : List ValueType) : f.Becomes (f.receive types) :=
  .operands f _

theorem Frame.Holds.receive {f : Frame} {rest : List ValueType} (held : f.Holds rest) (types : List ValueType) :
    (f.receive types).Holds (rest ++ types) :=
  held.stacked types

namespace Check

variable {Γ : Scope} {f : Frame} {outer : List Frame} {given : List Slot} {c' : Checker}

theorem leave_ok_iff {closed : Frame} :
    leave ⟨f :: outer, given⟩ = .ok closed c' ↔
      c' = ⟨outer, given⟩ ∧ closed.operands = [] ∧ ∃ slots, Operate.popAll f.endTypes f = .ok slots closed := by
  unfold leave
  dsimp only
  cases Operate.popAll f.endTypes f with
  | ok slots g =>
    dsimp only
    by_cases bare : g.operands = []
    · simp only [bare, List.isEmpty_nil, if_true, EStateM.Result.ok.injEq, exists_eq_left']
      constructor
      · rintro ⟨rfl, rfl⟩
        exact ⟨rfl, bare, rfl⟩
      · rintro ⟨rfl, _, rfl⟩
        exact ⟨rfl, rfl⟩
    · simp only [List.isEmpty_iff, bare, if_false, reduceCtorEq, false_iff, EStateM.Result.ok.injEq]
      rintro ⟨_, closed, _, _, rfl⟩
      exact bare closed
  | error v g => simp

/-- The kind of a block that is closed is the one it was opened with. -/
theorem leave_becomes {closed : Frame} (left : leave ⟨f :: outer, given⟩ = .ok closed c') :
    f.Becomes closed := by
  obtain ⟨_, _, slots, done⟩ := leave_ok_iff.mp left
  obtain ⟨ops, rfl⟩ := Operate.popAll_becomes done
  exact .operands f ops

theorem leave_closes {closed : Frame} (left : leave ⟨f :: outer, given⟩ = .ok closed c') : f.Closes := by
  obtain ⟨_, bare, slots, done⟩ := leave_ok_iff.mp left
  exact ⟨slots, closed, done, bare⟩

theorem leave_of_closes (closes : f.Closes) (outer : List Frame) (given : List Slot) :
    ∃ closed, leave ⟨f :: outer, given⟩ = .ok closed ⟨outer, given⟩ := by
  obtain ⟨slots, closed, done, bare⟩ := closes
  exact ⟨closed, leave_ok_iff.mpr ⟨rfl, bare, slots, done⟩⟩

/-- A block is closed when its operands are its results; one that is conditional and has no second part must
be able to pass on its parameters. -/
def Closable (f : Frame) : Prop :=
  f.Closes ∧ (f.kind = .if_ → (Frame.enter .else_ ⟨f.startTypes, f.endTypes⟩).Closes)

theorem step_eq (Γ : Scope) (i : Instruction) (f : Frame) (outer : List Frame) (given : List Slot) :
    step Γ i ⟨f :: outer, given⟩ = instruction Γ i ⟨f :: outer, given⟩ := rfl

theorem step_end_ok_iff :
    step Γ .end_ ⟨f :: outer, given⟩ = .ok () c' ↔
      Closable f ∧ give f.endTypes ⟨outer, given⟩ = .ok () c' := by
  rw [step_eq]
  simp only [instruction, closeBlock, Outcome.bind_ok_iff]
  constructor
  · rintro ⟨closed, c, left, rest⟩
    obtain ⟨kind, starts, ends, _⟩ := leave_becomes left
    obtain ⟨rfl, -⟩ := leave_ok_iff.mp left
    rw [kind, starts, ends] at rest
    split at rest
    · simp only [Outcome.bind_ok_iff] at rest
      obtain ⟨_, d, ⟨⟩, again, e, left', gave⟩ := rest
      obtain ⟨rfl, -⟩ := leave_ok_iff.mp left'
      exact ⟨⟨leave_closes left, fun _ => leave_closes left'⟩, gave⟩
    · rename_i plain
      exact ⟨⟨leave_closes left, fun isIf => absurd isIf plain⟩, rest⟩
  · rintro ⟨⟨closes, second⟩, gave⟩
    obtain ⟨closed, left⟩ := leave_of_closes closes outer given
    obtain ⟨kind, starts, ends, _⟩ := leave_becomes left
    refine ⟨closed, ⟨outer, given⟩, left, ?_⟩
    rw [kind, starts, ends]
    split
    · rename_i isIf
      obtain ⟨again, left'⟩ := leave_of_closes (second isIf) outer given
      simp only [Outcome.bind_ok_iff]
      exact ⟨(), _, rfl, again, _, left', gave⟩
    · exact gave

theorem step_else_ok_iff :
    step Γ .else_ ⟨f :: outer, given⟩ = .ok () c' ↔
      f.kind = .if_ ∧ f.Closes ∧ c' = ⟨.enter .else_ ⟨f.startTypes, f.endTypes⟩ :: outer, given⟩ := by
  rw [step_eq]
  simp only [instruction, beginElse]
  by_cases isIf : f.kind = .if_
  · simp only [isIf, if_true, true_and]
    constructor
    · intro done
      split at done
      · rename_i closed c left
        obtain ⟨_, starts, ends, _⟩ := leave_becomes left
        obtain ⟨rfl, -⟩ := leave_ok_iff.mp left
        cases done
        rw [starts, ends]
        exact ⟨leave_closes left, rfl⟩
      · cases done
    · rintro ⟨closes, rfl⟩
      obtain ⟨closed, left⟩ := leave_of_closes closes outer given
      obtain ⟨_, starts, ends, _⟩ := leave_becomes left
      rw [left]
      dsimp only
      rw [starts, ends]
      rfl
  · simp [isIf]

theorem openBlock_ok_iff {kind : FrameKind} {type : BlockType} (unconditional : kind ≠ .if_) :
    openBlock Γ kind type ⟨f :: outer, given⟩ = .ok () c' ↔
      ∃ signature slots f', Γ.blockSignature type = .ok signature ∧
        Operate.popAll signature.params f = .ok slots f' ∧
        c' = ⟨.enter kind signature :: f' :: outer, given⟩ := by
  simp only [openBlock, Outcome.bind_ok_iff, Outcome.lift_ok_iff, unconditional, if_false]
  constructor
  · rintro ⟨signature, _, ⟨found, rfl⟩, slots, _, popped, ⟨⟩⟩
    obtain ⟨f', done, rfl⟩ := innermost_ok_iff.mp popped
    exact ⟨signature, slots, f', found, done, rfl⟩
  · rintro ⟨signature, slots, f', found, done, rfl⟩
    exact ⟨signature, _, ⟨found, rfl⟩, slots, _, innermost_ok_iff.mpr ⟨f', done, rfl⟩, rfl⟩

theorem step_if_ok_iff {type : BlockType} :
    step Γ (.if_ type) ⟨f :: outer, given⟩ = .ok () c' ↔
      ∃ signature condition f₁ slots f', Γ.blockSignature type = .ok signature ∧
        Operate.popExpected .i32 f = .ok condition f₁ ∧
        Operate.popAll signature.params f₁ = .ok slots f' ∧
        c' = ⟨.enter .if_ signature :: f' :: outer, given⟩ := by
  rw [step_eq]
  simp only [instruction, openBlock, Outcome.bind_ok_iff, Outcome.lift_ok_iff, if_true]
  constructor
  · rintro ⟨signature, _, ⟨found, rfl⟩, condition, _, tested, slots, _, popped, ⟨⟩⟩
    obtain ⟨f₁, top, rfl⟩ := innermost_ok_iff.mp tested
    obtain ⟨f', done, rfl⟩ := innermost_ok_iff.mp popped
    exact ⟨signature, condition, f₁, slots, f', found, top, done, rfl⟩
  · rintro ⟨signature, condition, f₁, slots, f', found, top, done, rfl⟩
    exact ⟨signature, _, ⟨found, rfl⟩, condition, _, innermost_ok_iff.mpr ⟨f₁, top, rfl⟩, slots, _,
      innermost_ok_iff.mpr ⟨f', done, rfl⟩, rfl⟩

end Check

end Wasm
