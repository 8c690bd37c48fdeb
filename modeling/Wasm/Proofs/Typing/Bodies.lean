import Wasm.Proofs.Typing.Leaves

/-! # Whole bodies: the checker against the typing rules

Structured code is checked as its instructions one by one. Code that has a type is accepted wherever the operands
fit what it takes. Code that is accepted has a type once what stands behind an instruction that never falls through
is left out: nothing compares the types of operands there.
-/

namespace Wasm

namespace Check

variable {Γ : Scope} {f f₁ : Frame} {outer : List Frame} {given : List Slot} {c' : Checker}

/-! ## Blocks -/

theorem give_eq (types : List ValueType) :
    give types ⟨f :: outer, given⟩ = .ok () ⟨f.receive types :: outer, given⟩ := rfl

/-- The inside of a block followed by its end and by other code. -/
theorem all_block_ok_iff {inner rest : List Instruction} (within : (all Γ inner).Inner) :
    all Γ (inner ++ .end_ :: rest) ⟨f :: f₁ :: outer, given⟩ = .ok () c' ↔
      ∃ g, all Γ inner ⟨f :: f₁ :: outer, given⟩ = .ok () ⟨g :: f₁ :: outer, given⟩ ∧ f.Becomes g ∧
        Closable g ∧ all Γ rest ⟨f₁.receive f.endTypes :: outer, given⟩ = .ok () c' := by
  simp only [all_append_ok_iff, all_cons_ok_iff]
  constructor
  · rintro ⟨_, ran, _, ended, more⟩
    obtain ⟨g, rfl, kept⟩ := within ran
    obtain ⟨closable, gave⟩ := step_end_ok_iff.mp ended
    rw [give_eq, kept.2.2.1] at gave
    cases gave
    exact ⟨g, ran, kept, closable, more⟩
  · rintro ⟨g, ran, kept, closable, more⟩
    refine ⟨_, ran, _, step_end_ok_iff.mpr ⟨closable, ?_⟩, more⟩
    rw [give_eq, kept.2.2.1]

/-- The first part of a conditional block followed by the mark that divides it and by other code. -/
theorem all_part_ok_iff {inner rest : List Instruction} (within : (all Γ inner).Inner) (isIf : f.kind = .if_) :
    all Γ (inner ++ .else_ :: rest) ⟨f :: outer, given⟩ = .ok () c' ↔
      ∃ g, all Γ inner ⟨f :: outer, given⟩ = .ok () ⟨g :: outer, given⟩ ∧ f.Becomes g ∧ g.Closes ∧
        all Γ rest ⟨.enter .else_ ⟨f.startTypes, f.endTypes⟩ :: outer, given⟩ = .ok () c' := by
  simp only [all_append_ok_iff, all_cons_ok_iff]
  constructor
  · rintro ⟨_, ran, _, divided, more⟩
    obtain ⟨g, rfl, kept⟩ := within ran
    obtain ⟨_, closes, rfl⟩ := step_else_ok_iff.mp divided
    rw [kept.2.1, kept.2.2.1] at more
    exact ⟨g, ran, kept, closes, more⟩
  · rintro ⟨g, ran, kept, closes, more⟩
    refine ⟨_, ran, _, step_else_ok_iff.mpr ⟨kept.1.trans isIf, closes, ?_⟩, more⟩
    rw [kept.2.1, kept.2.2.1]

variable {type : BlockType} {inner other rest : List Instruction}

theorem instruction_block (Γ : Scope) (type : BlockType) :
    instruction Γ (.block type) = openBlock Γ .block type := rfl

theorem instruction_loop (Γ : Scope) (type : BlockType) :
    instruction Γ (.loop type) = openBlock Γ .loop type := rfl

/-- A block or a loop and the code behind it. -/
theorem all_open_ok_iff {i : Instruction} {kind : FrameKind} (opens : instruction Γ i = openBlock Γ kind type)
    (unconditional : kind ≠ .if_) (within : (all Γ inner).Inner) :
    all Γ (i :: (inner ++ .end_ :: rest)) ⟨f :: outer, given⟩ = .ok () c' ↔
      ∃ (signature : FuncType) (slots : List Slot) (f₁ g : Frame),
        type.HasType Γ signature.params signature.results ∧
        Operate.popAll signature.params f = .ok slots f₁ ∧
        all Γ inner ⟨.enter kind signature :: f₁ :: outer, given⟩ = .ok () ⟨g :: f₁ :: outer, given⟩ ∧
        (Frame.enter kind signature).Becomes g ∧ g.Closes ∧
        all Γ rest ⟨f₁.receive signature.results :: outer, given⟩ = .ok () c' := by
  rw [all_cons_ok_iff]
  simp only [step_eq, opens, openBlock_ok_iff unconditional, Scope.blockSignature_ok_iff]
  constructor
  · rintro ⟨_, ⟨signature, slots, f₁, typed, popped, rfl⟩, done⟩
    obtain ⟨g, ran, kept, ⟨closes, _⟩, more⟩ := (all_block_ok_iff within).mp done
    exact ⟨signature, slots, f₁, g, typed, popped, ran, kept, closes, more⟩
  · rintro ⟨signature, slots, f₁, g, typed, popped, ran, kept, closes, more⟩
    refine ⟨_, ⟨signature, slots, f₁, typed, popped, rfl⟩, (all_block_ok_iff within).mpr ?_⟩
    exact ⟨g, ran, kept, ⟨closes, fun isIf => absurd (kept.1.symm.trans isIf) unconditional⟩, more⟩

/-- A conditional block without a second part and the code behind it. -/
theorem all_if_ok_iff (within : (all Γ inner).Inner) :
    all Γ (.if_ type :: (inner ++ .end_ :: rest)) ⟨f :: outer, given⟩ = .ok () c' ↔
      ∃ (signature : FuncType) (condition : Slot) (f₀ : Frame) (slots : List Slot) (f₁ g : Frame),
        type.HasType Γ signature.params signature.results ∧
        Operate.popExpected .i32 f = .ok condition f₀ ∧ Operate.popAll signature.params f₀ = .ok slots f₁ ∧
        all Γ inner ⟨.enter .if_ signature :: f₁ :: outer, given⟩ = .ok () ⟨g :: f₁ :: outer, given⟩ ∧
        (Frame.enter .if_ signature).Becomes g ∧ g.Closes ∧ (Frame.enter .else_ signature).Closes ∧
        all Γ rest ⟨f₁.receive signature.results :: outer, given⟩ = .ok () c' := by
  rw [all_cons_ok_iff]
  simp only [step_if_ok_iff, Scope.blockSignature_ok_iff]
  constructor
  · rintro ⟨_, ⟨signature, condition, f₀, slots, f₁, typed, top, popped, rfl⟩, done⟩
    obtain ⟨g, ran, kept, ⟨closes, second⟩, more⟩ := (all_block_ok_iff within).mp done
    have passes := second kept.1
    rw [kept.2.1, kept.2.2.1] at passes
    exact ⟨signature, condition, f₀, slots, f₁, g, typed, top, popped, ran, kept, closes, passes, more⟩
  · rintro ⟨signature, condition, f₀, slots, f₁, g, typed, top, popped, ran, kept, closes, passes, more⟩
    refine ⟨_, ⟨signature, condition, f₀, slots, f₁, typed, top, popped, rfl⟩,
      (all_block_ok_iff within).mpr ⟨g, ran, kept, ⟨closes, fun _ => ?_⟩, more⟩⟩
    rw [kept.2.1, kept.2.2.1]
    exact passes

/-- A conditional block of two parts and the code behind it. -/
theorem all_ifElse_ok_iff (within : (all Γ inner).Inner) (within' : (all Γ other).Inner) :
    all Γ (.if_ type :: (inner ++ .else_ :: (other ++ .end_ :: rest))) ⟨f :: outer, given⟩ = .ok () c' ↔
      ∃ (signature : FuncType) (condition : Slot) (f₀ : Frame) (slots : List Slot) (f₁ g h : Frame),
        type.HasType Γ signature.params signature.results ∧
        Operate.popExpected .i32 f = .ok condition f₀ ∧ Operate.popAll signature.params f₀ = .ok slots f₁ ∧
        all Γ inner ⟨.enter .if_ signature :: f₁ :: outer, given⟩ = .ok () ⟨g :: f₁ :: outer, given⟩ ∧
        (Frame.enter .if_ signature).Becomes g ∧ g.Closes ∧
        all Γ other ⟨.enter .else_ signature :: f₁ :: outer, given⟩ = .ok () ⟨h :: f₁ :: outer, given⟩ ∧
        (Frame.enter .else_ signature).Becomes h ∧ h.Closes ∧
        all Γ rest ⟨f₁.receive signature.results :: outer, given⟩ = .ok () c' := by
  rw [all_cons_ok_iff]
  simp only [step_if_ok_iff, Scope.blockSignature_ok_iff]
  constructor
  · rintro ⟨_, ⟨signature, condition, f₀, slots, f₁, typed, top, popped, rfl⟩, done⟩
    obtain ⟨g, ran, kept, closes, done⟩ := (all_part_ok_iff within rfl).mp done
    obtain ⟨h, ran', kept', ⟨closes', _⟩, more⟩ := (all_block_ok_iff within').mp done
    exact ⟨signature, condition, f₀, slots, f₁, g, h, typed, top, popped, ran, kept, closes, ran', kept',
      closes', more⟩
  · rintro ⟨signature, condition, f₀, slots, f₁, g, h, typed, top, popped, ran, kept, closes, ran', kept',
      closes', more⟩
    refine ⟨_, ⟨signature, condition, f₀, slots, f₁, typed, top, popped, rfl⟩,
      (all_part_ok_iff within rfl).mpr ⟨g, ran, kept, closes, (all_block_ok_iff within').mpr ?_⟩⟩
    refine ⟨h, ran', kept', ⟨closes', fun isIf => ?_⟩, more⟩
    cases kept'.1.symm.trans isIf

/-- Code with all its blocks closed touches the innermost block only. -/
theorem inner_all (Γ : Scope) (code : Code) : (all Γ code.flatten).Inner := by
  induction code with
  | nil =>
    rintro f outer given _ _ ⟨⟩
    exact ⟨f, rfl, .refl f⟩
  | leaf i rest ih =>
    intro f outer given _ c' done
    obtain ⟨_, one, more⟩ := all_cons_ok_iff.mp done
    obtain ⟨g, rfl, kept⟩ := inner_instruction Γ i one
    obtain ⟨f', rfl, kept'⟩ := ih more
    exact ⟨f', rfl, kept.trans kept'⟩
  | block type inner rest within ih =>
    intro f outer given _ c' done
    obtain ⟨_, _, f₁, _, _, popped, _, _, _, more⟩ :=
      (all_open_ok_iff (instruction_block Γ type) nofun within).mp done
    obtain ⟨f', rfl, kept⟩ := ih more
    exact ⟨f', rfl, (Operate.steady_popAll _ popped).trans ((f₁.receive_becomes _).trans kept)⟩
  | loop type inner rest within ih =>
    intro f outer given _ c' done
    obtain ⟨_, _, f₁, _, _, popped, _, _, _, more⟩ :=
      (all_open_ok_iff (instruction_loop Γ type) nofun within).mp done
    obtain ⟨f', rfl, kept⟩ := ih more
    exact ⟨f', rfl, (Operate.steady_popAll _ popped).trans ((f₁.receive_becomes _).trans kept)⟩
  | if_ type inner rest within ih =>
    intro f outer given _ c' done
    obtain ⟨_, _, f₀, _, f₁, _, _, top, popped, _, _, _, _, more⟩ := (all_if_ok_iff within).mp done
    obtain ⟨f', rfl, kept⟩ := ih more
    exact ⟨f', rfl, (Operate.steady_popExpected _ top).trans
      ((Operate.steady_popAll _ popped).trans ((f₁.receive_becomes _).trans kept))⟩
  | ifElse type inner other rest within within' ih =>
    intro f outer given _ c' done
    obtain ⟨_, _, f₀, _, f₁, _, _, _, top, popped, _, _, _, _, _, _, more⟩ :=
      (all_ifElse_ok_iff within within').mp done
    obtain ⟨f', rfl, kept⟩ := ih more
    exact ⟨f', rfl, (Operate.steady_popExpected _ top).trans
      ((Operate.steady_popAll _ popped).trans ((f₁.receive_becomes _).trans kept))⟩

/-! ## Code that has a type is accepted -/

theorem all_single_ok_iff {i : Leaf} {c : Checker} :
    all Γ (Code.single i).flatten c = .ok () c' ↔ step Γ i.instruction c = .ok () c' := by
  show all Γ [i.instruction] c = _ ↔ _
  rw [all_cons_ok_iff]
  exact ⟨fun ⟨_, one, done⟩ => by cases done; exact one, fun one => ⟨c', one, rfl⟩⟩

/-- The inside of a block that leaves operands fitting its results can be closed. -/
theorem closes_of_fits {kind : FrameKind} {type : FuncType} {g : Frame} (kept : (Frame.enter kind type).Becomes g)
    (fits : g.Fits type.results) : g.Closes := by
  have ends : g.endTypes = type.results := kept.2.2.1
  exact Frame.Fits.closes (ends ▸ fits)

/-- What is asked of code: wherever the labels are those given and the operands fit what it takes, above any others,
it is accepted and leaves operands that fit what it gives. -/
def Accepted (Γ : Scope) (targets : List (List ValueType)) (code : Code) (ts us : List ValueType) : Prop :=
  ∀ ⦃f outer given below⦄, labels (f :: outer) = targets → f.Fits (below ++ ts) →
    ∃ f', all Γ code.flatten ⟨f :: outer, given⟩ = .ok () ⟨f' :: outer, given⟩ ∧ f'.Fits (below ++ us)

variable {targets : List (List ValueType)} {ts us : List ValueType}

/-- The inside of a block is accepted with the parameters as operands. -/
theorem Accepted.enter {code : Code} (accepted : Accepted Γ targets code ts us) (kind : FrameKind)
    (outer : List Frame) (given : List Slot)
    (same : labels (.enter kind ⟨ts, us⟩ :: outer) = targets) :
    ∃ g, all Γ code.flatten ⟨.enter kind ⟨ts, us⟩ :: outer, given⟩ = .ok () ⟨g :: outer, given⟩ ∧
      (Frame.enter kind ⟨ts, us⟩).Becomes g ∧ g.Closes := by
  obtain ⟨g, ran, fits⟩ := @accepted _ outer given [] same (Frame.fits_enter.mpr rfl)
  obtain ⟨_, ⟨⟩, kept⟩ := inner_all Γ code ran
  exact ⟨g, ran, kept, closes_of_fits kept fits⟩

/-- Code that has a type is accepted. -/
theorem accepted_of_hasType {code : Code} (typed : Code.HasType Γ targets code ts us) :
    Accepted Γ targets code ts us := by
  induction typed with
  | empty =>
    intro f outer given below _ fits
    exact ⟨f, rfl, fits⟩
  | sequence _ _ ih ih' =>
    intro f outer given below here fits
    obtain ⟨g, ran, fits'⟩ := ih here fits
    obtain ⟨_, ⟨⟩, kept⟩ := inner_all Γ _ ran
    obtain ⟨f', ran', fits''⟩ := ih' ((labels_of_becomes outer kept).trans here) fits'
    refine ⟨f', ?_, fits''⟩
    rw [Code.flatten_append]
    exact all_append_ok_iff.mpr ⟨_, ran, ran'⟩
  | frame lower _ ih =>
    intro f outer given below here fits
    rw [← List.append_assoc] at fits ⊢
    exact ih here fits
  | plain typed =>
    intro f outer given below here fits
    obtain ⟨slots, f', popped, fits'⟩ := receives_of_fits _ fits
    exact ⟨_, all_single_ok_iff.mpr (plain_ok_iff.mpr ⟨⟨_, _⟩, slots, f', typed, popped, rfl⟩), fits'⟩
  | drop t =>
    intro f outer given below here fits
    obtain ⟨s, ops, popped, _, _, fits'⟩ := Operate.popTop_of_fits fits
    refine ⟨_, all_single_ok_iff.mpr (drop_ok_iff.mpr ⟨s, _, popped, rfl⟩), ?_⟩
    rwa [List.append_nil]
  | select t simple =>
    intro f outer given below here fits
    obtain ⟨f', acted, fits'⟩ := Operate.select_of_fits simple fits
    exact ⟨f', all_single_ok_iff.mpr (innermost_ok_iff.mpr ⟨f', acted, rfl⟩), fits'⟩
  | refIsNull t =>
    intro f outer given below here fits
    obtain ⟨f', acted, fits'⟩ := Operate.refIsNull_of_fits fits
    exact ⟨f', all_single_ok_iff.mpr (innermost_ok_iff.mpr ⟨f', acted, rfl⟩), fits'⟩
  | unreachable ts us =>
    intro f outer given below here fits
    exact ⟨_, all_single_ok_iff.mpr rfl, Frame.fits_dead _ rfl rfl⟩
  | br target ts us =>
    intro f outer given below here fits
    rw [← List.append_assoc] at fits
    obtain ⟨slots, f', popped, fits'⟩ := leaves_of_fits fits
    exact ⟨_, all_single_ok_iff.mpr (branch_ok_iff.mpr ⟨_, slots, f', here ▸ target, popped, rfl⟩), fits'⟩
  | brIf target =>
    intro f outer given below here fits
    rw [← List.append_assoc] at fits
    obtain ⟨condition, ops, _, top, _, fits₁⟩ := Operate.popTop_of_fits fits
    obtain ⟨slots, f', popped, fits'⟩ := receives_of_fits _ fits₁
    exact ⟨_, all_single_ok_iff.mpr
      (branchIf_ok_iff.mpr ⟨condition, _, _, slots, f', top, here ▸ target, popped, rfl⟩), fits'⟩
  | brTable agree ts us =>
    intro f outer given below here fits
    rw [← List.append_assoc, ← List.append_assoc] at fits
    obtain ⟨choice, ops, _, top, _, fits₁⟩ := Operate.popTop_of_fits fits
    subst here
    obtain ⟨listed, last⟩ := List.forall_mem_append.mp agree
    obtain ⟨ops', table, fits₂⟩ := tableLabels_of_fits (f := { f with operands := ops }) fits₁ listed
    obtain ⟨slots, f', popped, fits'⟩ := leaves_of_fits fits₂
    refine ⟨_, all_single_ok_iff.mpr (branchTable_ok_iff.mpr
      ⟨choice, _, _, _, slots, f', top, last _ (List.mem_singleton.mpr rfl), table, popped, rfl⟩), fits'⟩
  | return_ returns ts us =>
    intro f outer given below here fits
    rw [← List.append_assoc] at fits
    obtain ⟨slots, f', popped, fits'⟩ := leaves_of_fits fits
    exact ⟨_, all_single_ok_iff.mpr (returnFrom_ok_iff.mpr ⟨_, slots, f', returns, popped, rfl⟩), fits'⟩
  | @block _ _ _ ts us typed _ ih =>
    intro f outer given below here fits
    obtain ⟨slots, f₁, popped, fits'⟩ := receives_of_fits us fits
    have here₁ := (labels_of_becomes outer (Operate.steady_popAll _ popped)).trans here
    obtain ⟨g, ran, kept, closes⟩ := ih.enter .block (f₁ :: outer) given (congrArg _ here₁)
    exact ⟨_, (all_open_ok_iff (instruction_block Γ _) nofun (inner_all Γ _)).mpr
      ⟨⟨ts, us⟩, slots, f₁, g, typed, popped, ran, kept, closes, rfl⟩, fits'⟩
  | @loop _ _ _ ts us typed _ ih =>
    intro f outer given below here fits
    obtain ⟨slots, f₁, popped, fits'⟩ := receives_of_fits us fits
    have here₁ := (labels_of_becomes outer (Operate.steady_popAll _ popped)).trans here
    obtain ⟨g, ran, kept, closes⟩ := ih.enter .loop (f₁ :: outer) given (congrArg _ here₁)
    exact ⟨_, (all_open_ok_iff (instruction_loop Γ _) nofun (inner_all Γ _)).mpr
      ⟨⟨ts, us⟩, slots, f₁, g, typed, popped, ran, kept, closes, rfl⟩, fits'⟩
  | @if_ _ _ _ ts us typed _ _ ih ih' =>
    intro f outer given below here fits
    rw [← List.append_assoc] at fits
    obtain ⟨condition, ops, _, top, _, fits₀⟩ := Operate.popTop_of_fits fits
    obtain ⟨slots, f₁, popped, fits'⟩ := receives_of_fits us fits₀
    have kept₁ := (Operate.steady_popExpected _ top).trans (Operate.steady_popAll _ popped)
    have here₁ := (labels_of_becomes outer kept₁).trans here
    obtain ⟨g, ran, kept, closes⟩ := ih.enter .if_ (f₁ :: outer) given (congrArg _ here₁)
    obtain ⟨_, ⟨⟩, _, passes⟩ := ih'.enter .else_ (f₁ :: outer) given (congrArg _ here₁)
    exact ⟨_, (all_if_ok_iff (inner_all Γ _)).mpr
      ⟨⟨ts, us⟩, condition, _, slots, f₁, g, typed, top, popped, ran, kept, closes, passes, rfl⟩, fits'⟩
  | @ifElse _ _ _ _ ts us typed _ _ ih ih' =>
    intro f outer given below here fits
    rw [← List.append_assoc] at fits
    obtain ⟨condition, ops, _, top, _, fits₀⟩ := Operate.popTop_of_fits fits
    obtain ⟨slots, f₁, popped, fits'⟩ := receives_of_fits us fits₀
    have kept₁ := (Operate.steady_popExpected _ top).trans (Operate.steady_popAll _ popped)
    have here₁ := (labels_of_becomes outer kept₁).trans here
    obtain ⟨g, ran, kept, closes⟩ := ih.enter .if_ (f₁ :: outer) given (congrArg _ here₁)
    obtain ⟨h, ran', kept', closes'⟩ := ih'.enter .else_ (f₁ :: outer) given (congrArg _ here₁)
    exact ⟨_, (all_ifElse_ok_iff (inner_all Γ _) (inner_all Γ _)).mpr
      ⟨⟨ts, us⟩, condition, _, slots, f₁, g, h, typed, top, popped, ran, kept, closes, ran', kept', closes',
        rfl⟩, fits'⟩

/-! ## Code that is accepted has a type -/

/-- What checking code from the operands `ts` comes to: the code behind it is reached with operands that the code gives
by its type, or it is not reached and the code has any type that takes those operands. -/
def Typed (Γ : Scope) (targets : List (List ValueType)) (code : Code) (ts : List ValueType) (f : Frame) : Prop :=
  (∃ us, f.Holds us ∧ Code.HasType Γ targets code ts us) ∨
    (f.unreachable = true ∧ ∀ us, Code.HasType Γ targets code ts us)

theorem Typed.after {a b : Code} (first : Code.HasType Γ targets a ts us) (second : Typed Γ targets b us f) :
    Typed Γ targets (a.append b) ts f := by
  rcases second with ⟨vs, held, typed⟩ | ⟨dead, typed⟩
  · exact .inl ⟨vs, held, .sequence first typed⟩
  · exact .inr ⟨dead, fun vs => .sequence first (typed vs)⟩

/-- The inside of a block that can be closed gives the results of the block. -/
theorem Typed.closed {code : Code} {kind : FrameKind} {type : FuncType}
    (typed : Typed Γ targets code ts f) (kept : (Frame.enter kind type).Becomes f) (closes : f.Closes) :
    Code.HasType Γ targets code ts type.results := by
  rcases typed with ⟨us, held, typed⟩ | ⟨_, typed⟩
  · have ends : f.endTypes = type.results := kept.2.2.1
    obtain rfl : us = type.results := (closes.eq_of_holds held).trans ends
    exact typed
  · exact typed _

/-- A block takes its parameters from the operands held and puts its results in their place. -/
theorem Typed.afterBlock {block rest : Code} {f' : Frame} {lower : List ValueType} (kept : f.Becomes f₁)
    (whole : Code.HasType Γ (labels (f :: outer)) block ts us)
    (tail : Typed Γ (labels (f₁.receive us :: outer)) rest (lower ++ us) f') :
    Typed Γ (labels (f :: outer)) (block.append rest) (lower ++ ts) f' := by
  rw [labels_of_becomes outer (kept.trans (f₁.receive_becomes us))] at tail
  exact .after (.frame lower whole) tail

theorem typed_nil (held : f.Holds ts) : Typed Γ targets .nil ts f := by
  have typed := Code.HasType.frame ts (.empty : Code.HasType Γ targets .nil [] [])
  rw [List.append_nil] at typed
  exact .inl ⟨ts, held, typed⟩

/-- Where code is reached, code that is accepted has a type, apart from what is not reached inside it. -/
theorem typed_of_all (code : Code) {f f' : Frame} {outer : List Frame} {held : List ValueType} (holds : f.Holds held)
    (done : all Γ code.flatten ⟨f :: outer, given⟩ = .ok () ⟨f' :: outer, given⟩) :
    Typed Γ (labels (f :: outer)) code.live held f' := by
  induction code generalizing f f' outer held with
  | nil =>
    cases done
    exact typed_nil holds
  | leaf i rest ih =>
    obtain ⟨_, one, more⟩ := all_cons_ok_iff.mp done
    unfold Code.live
    cases falls : i.fallsThrough with
    | true =>
      obtain ⟨g, us, rfl, holds', typed⟩ := hasType_of_falls falls holds one
      obtain ⟨_, ⟨⟩, kept⟩ := inner_instruction Γ i one
      have tail := ih holds' more
      rw [labels_of_becomes outer kept] at tail
      exact .after typed tail
    | false =>
      obtain ⟨g, rfl, dead⟩ := unreachable_of_leaves falls one
      obtain ⟨_, ⟨⟩, kept⟩ := inner_all Γ rest more
      exact .inr ⟨kept.2.2.2 dead, hasType_of_leaves falls holds one⟩
  | block type inner rest ihi ih =>
    obtain ⟨signature, _, f₁, g, typed, popped, ran, kept, closes, more⟩ :=
      (all_open_ok_iff (instruction_block Γ type) nofun (inner_all Γ inner)).mp done
    obtain ⟨lower, rfl, holds₁, _⟩ := Operate.popAll_of_holds holds popped
    have kept₁ := Operate.steady_popAll _ popped
    have body := (ihi (Frame.holds_enter _ _) ran).closed kept closes
    have same := congrArg (signature.results :: ·) (labels_of_becomes outer kept₁)
    exact .afterBlock kept₁ (.block typed (same ▸ body)) (ih (holds₁.receive _) more)
  | loop type inner rest ihi ih =>
    obtain ⟨signature, _, f₁, g, typed, popped, ran, kept, closes, more⟩ :=
      (all_open_ok_iff (instruction_loop Γ type) nofun (inner_all Γ inner)).mp done
    obtain ⟨lower, rfl, holds₁, _⟩ := Operate.popAll_of_holds holds popped
    have kept₁ := Operate.steady_popAll _ popped
    have body := (ihi (Frame.holds_enter _ _) ran).closed kept closes
    have same := congrArg (signature.params :: ·) (labels_of_becomes outer kept₁)
    exact .afterBlock kept₁ (.loop typed (same ▸ body)) (ih (holds₁.receive _) more)
  | if_ type inner rest ihi ih =>
    obtain ⟨signature, _, _, _, f₁, g, typed, top, popped, ran, kept, closes, passes, more⟩ :=
      (all_if_ok_iff (inner_all Γ inner)).mp done
    obtain ⟨below, rfl, holds₀⟩ := Operate.popExpected_of_holds holds top
    obtain ⟨lower, rfl, holds₁, _⟩ := Operate.popAll_of_holds holds₀ popped
    have kept₁ := (Operate.steady_popExpected _ top).trans (Operate.steady_popAll _ popped)
    have body := (ihi (Frame.holds_enter _ _) ran).closed kept closes
    have same := congrArg (signature.results :: ·) (labels_of_becomes outer kept₁)
    rw [List.append_assoc]
    refine .afterBlock kept₁ (.if_ typed (same ▸ body) ?_) (ih (holds₁.receive _) more)
    exact (typed_nil (Frame.holds_enter .else_ signature)).closed (.refl _) passes
  | ifElse type inner other rest ihi iho ih =>
    obtain ⟨signature, _, _, _, f₁, g, h, typed, top, popped, ran, kept, closes, ran', kept', closes', more⟩ :=
      (all_ifElse_ok_iff (inner_all Γ inner) (inner_all Γ other)).mp done
    obtain ⟨below, rfl, holds₀⟩ := Operate.popExpected_of_holds holds top
    obtain ⟨lower, rfl, holds₁, _⟩ := Operate.popAll_of_holds holds₀ popped
    have kept₁ := (Operate.steady_popExpected _ top).trans (Operate.steady_popAll _ popped)
    have body := (ihi (Frame.holds_enter _ _) ran).closed kept closes
    have second := (iho (Frame.holds_enter _ _) ran').closed kept' closes'
    have same := congrArg (signature.results :: ·) (labels_of_becomes outer kept₁)
    rw [List.append_assoc]
    exact .afterBlock kept₁ (.ifElse typed (same ▸ body) (same ▸ second)) (ih (holds₁.receive _) more)

/-- An expression is accepted when its code is and leaves the results as operands. -/
theorem accepts_iff {results : List ValueType} {code : Code} :
    Accepts Γ results (code.flatten ++ [.end_]) ↔
      ∃ g, all Γ code.flatten (.start results) = .ok () ⟨[g], []⟩ ∧
        (Frame.enter .function ⟨[], results⟩).Becomes g ∧ g.Closes := by
  simp only [Accepts, expression, Outcome.bind_ok_iff]
  constructor
  · rintro ⟨_, _, _, done, _⟩
    obtain ⟨_, ran, last⟩ := all_append_ok_iff.mp done
    obtain ⟨_, ended, _⟩ := all_cons_ok_iff.mp last
    obtain ⟨g, rfl, kept⟩ := inner_all Γ code ran
    exact ⟨g, ran, kept, (step_end_ok_iff.mp ended).1.1⟩
  · rintro ⟨g, ran, kept, closes⟩
    have closable : Closable g := ⟨closes, fun isIf => by cases kept.1.symm.trans isIf⟩
    have ended : step Γ .end_ ⟨[g], []⟩ = .ok () ⟨[], Frame.stacked g.endTypes []⟩ :=
      step_end_ok_iff.mpr ⟨closable, rfl⟩
    exact ⟨_, (), _, all_append_ok_iff.mpr ⟨_, ran, all_cons_ok_iff.mpr ⟨_, ended, rfl⟩⟩, rfl⟩

/-! ## Code that is reached -/

/-- Every instruction, but those that divide and close blocks, is met where code is reached. -/
def Reached (Γ : Scope) : List Instruction → Checker → Prop
  | [], _ => True
  | i :: rest, c =>
    (i = .else_ ∨ i = .end_ ∨ ∀ f ∈ c.frames.head?, f.unreachable = false) ∧
      ∀ c', step Γ i c = .ok () c' → Reached Γ rest c'

theorem reached_append {first second : List Instruction} {c : Checker} :
    Reached Γ (first ++ second) c ↔
      Reached Γ first c ∧ ∀ c', all Γ first c = .ok () c' → Reached Γ second c' := by
  induction first generalizing c with
  | nil => simp [Reached, all]
  | cons i rest ih =>
    simp only [List.cons_append, Reached, ih, all_cons_ok_iff]
    constructor
    · rintro ⟨here, later⟩
      refine ⟨⟨here, fun d one => (later d one).1⟩, ?_⟩
      rintro c' ⟨d, one, more⟩
      exact (later d one).2 c' more
    · rintro ⟨⟨here, later⟩, last⟩
      exact ⟨here, fun d one => ⟨later d one, fun c' more => last c' ⟨d, one, more⟩⟩⟩

theorem frames_of_step {i : Instruction} {c : Checker} (done : step Γ i c = .ok () c') :
    ∃ f outer given, c = ⟨f :: outer, given⟩ := by
  obtain ⟨_ | ⟨f, outer⟩, given⟩ := c
  · cases done
  · exact ⟨f, outer, given, rfl⟩

/-- Code that is met where code is not reached is empty. -/
theorem nil_of_reached {code : Code} (reached : Reached Γ code.flatten ⟨f :: outer, given⟩)
    (dead : f.unreachable = true) : code = .nil := by
  cases code with
  | nil => rfl
  | leaf i rest => cases i <;> simp [Code.flatten, Leaf.instruction, Reached, dead] at reached
  | block | loop | if_ | ifElse => simp [Code.flatten, Reached, dead] at reached

/-- An instruction, code behind it up to a mark, and what follows the mark. -/
theorem reached_parts {i mark : Instruction} {c : Checker}
    (done : all Γ (i :: (inner ++ mark :: rest)) c = .ok () c')
    (reached : Reached Γ (i :: (inner ++ mark :: rest)) c) :
    (∃ d e, all Γ inner d = .ok () e ∧ Reached Γ inner d) ∧ ∃ d, all Γ rest d = .ok () c' ∧ Reached Γ rest d := by
  obtain ⟨d, one, more⟩ := all_cons_ok_iff.mp done
  obtain ⟨e, ran, last⟩ := all_append_ok_iff.mp more
  obtain ⟨d', marked, done'⟩ := all_cons_ok_iff.mp last
  obtain ⟨within, later⟩ := reached_append.mp (reached.2 d one)
  exact ⟨⟨d, e, ran, within⟩, d', done', (later e ran).2 d' marked⟩

/-- Code of which all is reached has nothing to leave out. -/
theorem live_of_reached {code : Code} {c : Checker} (done : all Γ code.flatten c = .ok () c')
    (reached : Reached Γ code.flatten c) : code.live = code := by
  induction code generalizing c c' with
  | nil => rfl
  | leaf i rest ih =>
    obtain ⟨d, one, more⟩ := all_cons_ok_iff.mp done
    have later := reached.2 d one
    unfold Code.live
    cases falls : i.fallsThrough with
    | true => exact congrArg _ (ih more later)
    | false =>
      obtain ⟨f, outer, given, rfl⟩ := frames_of_step one
      obtain ⟨g, rfl, dead⟩ := unreachable_of_leaves falls one
      rw [nil_of_reached later dead]
      rfl
  | block type inner rest ihi ih =>
    obtain ⟨⟨_, _, ran, within⟩, _, more, later⟩ := reached_parts done reached
    rw [Code.live, ihi ran within, ih more later]
  | loop type inner rest ihi ih =>
    obtain ⟨⟨_, _, ran, within⟩, _, more, later⟩ := reached_parts done reached
    rw [Code.live, ihi ran within, ih more later]
  | if_ type inner rest ihi ih =>
    obtain ⟨⟨_, _, ran, within⟩, _, more, later⟩ := reached_parts done reached
    rw [Code.live, ihi ran within, ih more later]
  | ifElse type inner other rest ihi iho ih =>
    obtain ⟨⟨_, _, ran, within⟩, d, done, reached⟩ := reached_parts done reached
    obtain ⟨e, ran', last⟩ := all_append_ok_iff.mp done
    obtain ⟨within', later⟩ := reached_append.mp reached
    obtain ⟨_, marked, more⟩ := all_cons_ok_iff.mp last
    rw [Code.live, ihi ran within, iho ran' within', ih more ((later e ran').2 _ marked)]

/-- The checker decides the typing of bodies, in a scope with every global, the locals, the results to return and the
functions that are declared. A body that has the type of its function is accepted, all its instructions and its end. A
body that is accepted has that type once what is not reached in it is left out; in particular it has it itself when each
of its instructions is met where code is reached. -/
theorem accepts_agrees_with_typing (space : IndexSpace) (results : List ValueType) (locals : Locals)
    (refs : FuncRefs) (code : Code) :
    (Code.HasType ⟨space, space.globals.size, locals, some results, some refs⟩ [results] code [] results →
      Accepts (.function space results locals refs) results (code.flatten ++ [.end_])) ∧
    (Accepts (.function space results locals refs) results (code.flatten ++ [.end_]) →
      Code.HasType ⟨space, space.globals.size, locals, some results, some refs⟩ [results] code.live [] results ∧
      (Reached (.function space results locals refs) (code.flatten ++ [.end_]) (.start results) →
        Code.HasType ⟨space, space.globals.size, locals, some results, some refs⟩ [results] code [] results)) := by
  constructor
  · intro typed
    obtain ⟨g, ran, kept, closes⟩ := (accepted_of_hasType typed).enter .function [] [] rfl
    exact accepts_iff.mpr ⟨g, ran, kept, closes⟩
  · intro accepts
    obtain ⟨g, ran, kept, closes⟩ := accepts_iff.mp accepts
    have typed := (typed_of_all code (Frame.holds_enter .function ⟨[], results⟩) ran).closed kept closes
    refine ⟨typed, fun reached => ?_⟩
    rw [live_of_reached ran (reached_append.mp reached).1] at typed
    exact typed

end Check

end Wasm
