import Wasm.Proofs.Typing.Leaves
import Wasm.Typing.Constant

/-! # Constant expressions

A constant expression is one instruction and its end: every instruction that it may hold gives one value and takes
none, so a second one would leave a value too many. What is asked of the instruction is said here of the index
spaces alone.
-/

namespace Wasm

/-- The functions that an instruction mentions. -/
def Instruction.mentions : Instruction → List UInt32
  | .plain (.refFunc func) => [func]
  | _ => []

/-- The references `refs` and those to the functions `funcs`. -/
def declaring (refs : FuncRefs) (funcs : List UInt32) : FuncRefs := funcs.foldl (fun refs func => refs.insert func) refs

/-- A function and its signature. -/
def IndexSpace.HasFunction (C : IndexSpace) (func : UInt32) (type : FuncType) : Prop :=
  ∃ index, C.functions[func.toNat]? = some index ∧ C.types[index.toNat]? = some type

/-- Constants and the values they give. A global counts only if it is imported and cannot change. -/
inductive Plain.IsConstant (C : IndexSpace) : Plain → ValueType → Prop where
  | i32Const (value : Int32) : IsConstant C (.i32Const value) .i32
  | i64Const (value : Int64) : IsConstant C (.i64Const value) .i64
  | f32Const (bits : UInt32) : IsConstant C (.f32Const bits) .f32
  | f64Const (bits : UInt64) : IsConstant C (.f64Const bits) .f64
  | v128Const (bytes : Vector UInt8 16) : IsConstant C (.v128Const bytes) .v128
  | refNull (t : RefType) : IsConstant C (.refNull t.tag) (.ref t)
  | refFunc {func type} (known : C.HasFunction func type) : IsConstant C (.refFunc func) .funcref
  | globalGet {index t} (imported : index.toNat < C.importedGlobals)
      (fixed : C.globals[index.toNat]? = some ⟨t, false⟩) : IsConstant C (.globalGet index) t

/-- A constant expression that gives a value of a type. -/
def IsConstantExpr (C : IndexSpace) (body : List Instruction) (t : ValueType) : Prop :=
  ∃ op, body = [.plain op, .end_] ∧ op.IsConstant C t

namespace ConstantExpr

/-- Instructions one after the other. -/
def all (Γ : Scope) : List Instruction → EStateM Violation ConstantExpr Unit
  | [] => pure ()
  | i :: rest => do
    step Γ i
    all Γ rest

/-- A whole expression, its end included. -/
def expression (Γ : Scope) (is : List Instruction) : EStateM Violation ConstantExpr Unit := do
  all Γ is
  finish

variable {C : IndexSpace} {refs refs' : FuncRefs} {op : Plain}

/-- Only constants and ends are admitted. -/
theorem isConstant_of_permit {Γ : Scope} {i : Instruction} (permitted : Γ.permit i refs = .ok refs') :
    i.isConstant = true := by
  unfold Scope.permit at permitted
  split at permitted
  · cases permitted
  · rename_i constant
    exact eq_true_of_ne_false constant

theorem permit_globalGet_ok_iff {Γ : Scope} {index : UInt32} :
    Γ.permit (.plain (.globalGet index)) refs = .ok refs' ↔ (∃ t, Γ.HasGlobal index t false) ∧ refs = refs' := by
  show (Γ.global index >>= fun g => _) = _ ↔ _
  simp only [Verdict.bind_ok_iff, Scope.global_ok_iff]
  constructor
  · rintro ⟨⟨t, _ | _⟩, known, done⟩
    · exact ⟨⟨t, known⟩, by simpa using done⟩
    · cases done
  · rintro ⟨⟨t, known⟩, rfl⟩
    exact ⟨⟨t, false⟩, known, rfl⟩

theorem permit_refFunc_ok_iff {Γ : Scope} {func : UInt32} :
    Γ.permit (.plain (.refFunc func)) refs = .ok refs' ↔
      (∃ type, Γ.HasFunction func type) ∧ refs' = refs.insert func := by
  show (Γ.space.function func >>= fun _ => _) = _ ↔ _
  simp only [Verdict.bind_ok_iff, Scope.function_ok_iff, Verdict.pure_ok_iff]
  constructor
  · rintro ⟨type, known, rfl⟩
    exact ⟨⟨type, known⟩, rfl⟩
  · rintro ⟨⟨type, known⟩, rfl⟩
    exact ⟨type, known, rfl⟩

/-- A plain instruction is admitted to a constant expression, and has a type there, when it is a constant. -/
theorem permit_typed_iff {ts us : List ValueType} :
    (Scope.constant C).permit (.plain op) refs = .ok refs' ∧ op.HasType (.constant C) ts us ↔
      ∃ t, ts = [] ∧ us = [t] ∧ op.IsConstant C t ∧ refs' = declaring refs (Instruction.plain op).mentions := by
  constructor
  · rintro ⟨permitted, typed⟩
    have constant := isConstant_of_permit permitted
    cases typed with
    | i32Const value => cases permitted; exact ⟨_, rfl, rfl, .i32Const value, rfl⟩
    | i64Const value => cases permitted; exact ⟨_, rfl, rfl, .i64Const value, rfl⟩
    | f32Const bits => cases permitted; exact ⟨_, rfl, rfl, .f32Const bits, rfl⟩
    | f64Const bits => cases permitted; exact ⟨_, rfl, rfl, .f64Const bits, rfl⟩
    | v128Const bytes => cases permitted; exact ⟨_, rfl, rfl, .v128Const bytes, rfl⟩
    | refNull t => cases permitted; exact ⟨_, rfl, rfl, .refNull t, rfl⟩
    | refFunc =>
      obtain ⟨⟨type, known⟩, rfl⟩ := permit_refFunc_ok_iff.mp permitted
      exact ⟨_, rfl, rfl, .refFunc known, rfl⟩
    | globalGet found =>
      obtain ⟨⟨t, imported, known⟩, rfl⟩ := permit_globalGet_ok_iff.mp permitted
      obtain ⟨⟩ := known.symm.trans found.2
      exact ⟨_, rfl, rfl, .globalGet imported known, rfl⟩
    | _ => cases constant
  · rintro ⟨t, rfl, rfl, constant, rfl⟩
    cases constant with
    | i32Const value => exact ⟨rfl, .i32Const value⟩
    | i64Const value => exact ⟨rfl, .i64Const value⟩
    | f32Const bits => exact ⟨rfl, .f32Const bits⟩
    | f64Const bits => exact ⟨rfl, .f64Const bits⟩
    | v128Const bytes => exact ⟨rfl, .v128Const bytes⟩
    | refNull t => exact ⟨rfl, .refNull t⟩
    | refFunc known =>
      have found : ∃ type, (Scope.constant C).HasFunction _ type := ⟨_, known⟩
      exact ⟨permit_refFunc_ok_iff.mpr ⟨found, rfl⟩, .refFunc ⟨found, nofun⟩⟩
    | globalGet imported fixed =>
      exact ⟨permit_globalGet_ok_iff.mpr ⟨⟨t, imported, fixed⟩, rfl⟩, .globalGet ⟨imported, fixed⟩⟩

theorem step_ok_iff {Γ : Scope} {i : Instruction} {c : Checker} {e : ConstantExpr} {u : Unit} :
    step Γ i ⟨refs, c⟩ = .ok u e ↔
      Γ.permit i refs = .ok e.refs ∧ Check.step Γ i c = .ok () e.checker := by
  unfold step
  dsimp only
  cases Γ.permit i refs with
  | error v => simp
  | ok refs' =>
    dsimp only
    cases Check.step Γ i c with
    | error v c' => simp
    | ok _ c' =>
      obtain ⟨after, checker⟩ := e
      simp

theorem all_cons_ok_iff {Γ : Scope} {i : Instruction} {rest : List Instruction} {e e' : ConstantExpr} {u : Unit} :
    all Γ (i :: rest) e = .ok u e' ↔ ∃ d, step Γ i e = .ok () d ∧ all Γ rest d = .ok u e' := by
  simp only [all, Outcome.bind_ok_iff]
  exact ⟨fun ⟨_, d, one, more⟩ => ⟨d, one, more⟩, fun ⟨d, one, more⟩ => ⟨(), d, one, more⟩⟩

theorem expression_cons_ok_iff {Γ : Scope} {i : Instruction} {rest : List Instruction} {e e' : ConstantExpr} {u : Unit} :
    expression Γ (i :: rest) e = .ok u e' ↔ ∃ d, step Γ i e = .ok () d ∧ expression Γ rest d = .ok u e' := by
  simp only [expression, Outcome.bind_ok_iff, all_cons_ok_iff]
  constructor
  · rintro ⟨_, b, ⟨d, one, more⟩, finished⟩
    exact ⟨d, one, (), b, more, finished⟩
  · rintro ⟨d, one, _, b, more, finished⟩
    exact ⟨(), b, ⟨d, one, more⟩, finished⟩

/-- A constant pushes its value. -/
theorem step_plain_ok_iff {f : Frame} {e : ConstantExpr} :
    step (.constant C) (.plain op) ⟨refs, ⟨[f], []⟩⟩ = .ok () e ↔
      ∃ t, op.IsConstant C t ∧
        e = ⟨declaring refs (Instruction.plain op).mentions, ⟨[f.receive [t]], []⟩⟩ := by
  rw [step_ok_iff, Check.plain_ok_iff]
  constructor
  · rintro ⟨permitted, type, slots, f', typed, popped, after⟩
    obtain ⟨t, none, one, constant, equal⟩ := permit_typed_iff.mp ⟨permitted, typed⟩
    rw [none] at popped
    cases popped
    obtain ⟨_, _⟩ := e
    rw [one] at after
    dsimp only at equal after
    exact ⟨t, constant, by rw [equal, after]⟩
  · rintro ⟨t, constant, rfl⟩
    obtain ⟨permitted, typed⟩ := permit_typed_iff.mpr ⟨t, rfl, rfl, constant, rfl⟩
    exact ⟨permitted, ⟨[], [t]⟩, [], f, typed, rfl, rfl⟩

/-- The instructions that a constant expression may hold. -/
theorem end_or_plain {Γ : Scope} {i : Instruction} (permitted : Γ.permit i refs = .ok refs') :
    i = .end_ ∨ ∃ op, i = .plain op := by
  have constant := isConstant_of_permit permitted
  cases i with
  | end_ => exact .inl rfl
  | plain op => exact .inr ⟨op, rfl⟩
  | _ => cases constant

/-- With a value too many an expression is never completed. -/
theorem not_finished_of_two {f : Frame} {held : List ValueType} {t : ValueType} {body : List Instruction}
    {d e : ConstantExpr} (holds : f.Holds held) (two : 2 ≤ held.length) (ends : f.endTypes = [t])
    (ran : all (.constant C) body ⟨refs, ⟨[f], []⟩⟩ = .ok () d) : finish d ≠ .ok () e := by
  intro finished
  induction body generalizing refs f held with
  | nil => cases ran; cases finished
  | cons i rest ih =>
    obtain ⟨d', one, more⟩ := all_cons_ok_iff.mp ran
    obtain ⟨permitted, stepped⟩ := step_ok_iff.mp one
    rcases end_or_plain permitted with rfl | ⟨op, rfl⟩
    · obtain ⟨⟨closes, _⟩, _⟩ := Check.step_end_ok_iff.mp stepped
      rw [closes.eq_of_holds holds, ends] at two
      simp at two
    · obtain ⟨u, _, rfl⟩ := step_plain_ok_iff.mp one
      exact ih (holds.receive [u]) (by simp; omega) ends more

/-- The end of an expression that holds operands of known types. -/
theorem step_end_ok_iff {f : Frame} {held : List ValueType} {e : ConstantExpr} (holds : f.Holds held)
    (isFunction : f.kind = .function) :
    step (.constant C) .end_ ⟨refs, ⟨[f], []⟩⟩ = .ok () e ↔
      held = f.endTypes ∧ e = ⟨refs, ⟨[], Frame.stacked held []⟩⟩ := by
  rw [step_ok_iff, Check.step_end_ok_iff]
  have permitted : (Scope.constant C).permit .end_ refs = .ok refs := rfl
  constructor
  · rintro ⟨same, ⟨closes, _⟩, gave⟩
    have all := closes.eq_of_holds holds
    obtain ⟨refs', checker⟩ := e
    cases permitted.symm.trans same
    cases gave
    exact ⟨all, by rw [all]⟩
  · rintro ⟨rfl, rfl⟩
    refine ⟨permitted, ⟨Frame.Fits.closes (holds.fits_iff.mpr rfl), fun isIf => ?_⟩, rfl⟩
    cases isFunction.symm.trans isIf

/-- A constant expression is accepted exactly when it is one constant of its type, and its end. -/
theorem expression_ok_iff {t : ValueType} {body : List Instruction} {e : ConstantExpr} :
    expression (.constant C) body (.start refs t) = .ok () e ↔
      IsConstantExpr C body t ∧
        e = ⟨declaring refs (body.flatMap Instruction.mentions), ⟨[], [.known t]⟩⟩ := by
  have fresh := Frame.holds_enter .function ⟨[], [t]⟩
  constructor
  · intro done
    obtain ⟨_, d, ran, finished⟩ := Outcome.bind_ok_iff.mp done
    match body with
    | [] => cases ran; cases finished
    | i :: rest =>
      obtain ⟨d₁, one, more⟩ := all_cons_ok_iff.mp ran
      rcases end_or_plain (step_ok_iff.mp one).1 with rfl | ⟨op, rfl⟩
      · cases ((step_end_ok_iff fresh rfl).mp one).1
      obtain ⟨u, constant, rfl⟩ := step_plain_ok_iff.mp one
      have holds := fresh.receive [u]
      match rest with
      | [] => cases more; cases finished
      | j :: rest =>
        obtain ⟨d₂, two, more⟩ := all_cons_ok_iff.mp more
        rcases end_or_plain (step_ok_iff.mp two).1 with rfl | ⟨op', rfl⟩
        · obtain ⟨⟨⟩, rfl⟩ := (step_end_ok_iff holds rfl).mp two
          match rest with
          | [] =>
            cases more
            cases finished
            exact ⟨⟨op, rfl, constant⟩, by simp [Instruction.mentions, Frame.stacked]⟩
          | k :: rest =>
            obtain ⟨_, three, _⟩ := all_cons_ok_iff.mp more
            cases (step_ok_iff.mp three).2
        · obtain ⟨u', _, rfl⟩ := step_plain_ok_iff.mp two
          exact absurd finished (not_finished_of_two (holds.receive [u']) (by simp) rfl more)
  · rintro ⟨⟨op, rfl, constant⟩, rfl⟩
    let refs' := declaring refs (Instruction.plain op).mentions
    have one : step (.constant C) (.plain op) (.start refs t) = .ok () ⟨refs', _⟩ :=
      step_plain_ok_iff.mpr ⟨t, constant, rfl⟩
    have two : step (.constant C) .end_ ⟨refs', _⟩ = .ok () ⟨refs', ⟨[], [.known t]⟩⟩ :=
      (step_end_ok_iff (fresh.receive [t]) rfl).mpr ⟨rfl, rfl⟩
    have both : all (.constant C) [.plain op, .end_] (.start refs t) = .ok () ⟨refs', ⟨[], [.known t]⟩⟩ :=
      all_cons_ok_iff.mpr ⟨_, one, all_cons_ok_iff.mpr ⟨_, two, rfl⟩⟩
    have mentioned : [Instruction.plain op, .end_].flatMap Instruction.mentions = (Instruction.plain op).mentions := by
      simp [Instruction.mentions]
    rw [mentioned]
    exact Outcome.bind_ok_iff.mpr ⟨(), _, both, rfl⟩

end ConstantExpr

end Wasm
