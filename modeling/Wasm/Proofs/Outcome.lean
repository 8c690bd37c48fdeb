import Mathlib
import Wasm.Types.Check

/-! # Outcomes of checks and of steps

A computation made of several steps succeeds exactly when each of them does, one after the other. The
lemmas here read the success of a composed computation as the successes of its parts.
-/

namespace Wasm

section Verdicts

variable {α β : Type}

theorem Verdict.bind_ok_iff {x : Verdict α} {f : α → Verdict β} {b : β} :
    x >>= f = .ok b ↔ ∃ a, x = .ok a ∧ f a = .ok b := by
  cases x <;> simp [bind, Except.bind]

@[simp] theorem Verdict.pure_ok_iff {a b : α} : (pure a : Verdict α) = .ok b ↔ a = b := by
  simp [pure, Except.pure]

@[simp] theorem Verdict.throw_ok_iff {v : Violation} {b : α} : (throw v : Verdict α) = .ok b ↔ False :=
  ⟨fun equal => (nomatch equal), False.elim⟩

end Verdicts

namespace Outcome

variable {ε σ α β : Type}

theorem bind_ok_iff {m : EStateM ε σ α} {f : α → EStateM ε σ β} {s s' : σ} {b : β} :
    (m >>= f) s = .ok b s' ↔ ∃ a t, m s = .ok a t ∧ f a t = .ok b s' := by
  show EStateM.bind m f s = _ ↔ _
  unfold EStateM.bind
  cases m s with
  | ok a t =>
    refine ⟨fun second => ⟨a, t, rfl, second⟩, ?_⟩
    rintro ⟨_, _, ⟨⟩, second⟩
    exact second
  | error e t => simp

/-- A first step that succeeds hands its state to the second. -/
theorem bind_of_ok {m : EStateM ε σ α} {f : α → EStateM ε σ β} {s t : σ} {a : α}
    (first : m s = .ok a t) : (m >>= f) s = f a t := by
  show EStateM.bind m f s = _
  unfold EStateM.bind
  rw [first]

/-- A first step that fails is the end of it. -/
theorem bind_of_error {m : EStateM ε σ α} {f : α → EStateM ε σ β} {s t : σ} {e : ε}
    (first : m s = .error e t) : (m >>= f) s = .error e t := by
  show EStateM.bind m f s = _
  unfold EStateM.bind
  rw [first]

@[simp] theorem pure_ok_iff {a b : α} {s s' : σ} :
    (pure a : EStateM ε σ α) s = .ok b s' ↔ a = b ∧ s = s' := by
  show EStateM.Result.ok a s = _ ↔ _
  simp

@[simp] theorem throw_ok_iff {e : ε} {b : α} {s s' : σ} :
    (throw e : EStateM ε σ α) s = .ok b s' ↔ False :=
  ⟨fun equal => (nomatch equal), False.elim⟩

@[simp] theorem get_ok_iff {s t s' : σ} : (get : EStateM ε σ σ) s = .ok t s' ↔ s = t ∧ s = s' := by
  show EStateM.Result.ok s s = _ ↔ _
  simp

@[simp] theorem modify_ok_iff {f : σ → σ} {s s' : σ} {u : PUnit} :
    (modify f : EStateM ε σ PUnit) s = .ok u s' ↔ f s = s' := by
  show EStateM.Result.ok PUnit.unit (f s) = _ ↔ _
  simp

/-- A check inside a computation succeeds when the check does, and changes nothing. -/
@[simp] theorem lift_ok_iff {x : Verdict α} {s s' : σ} {a : α} :
    (liftM x : EStateM Violation σ α) s = .ok a s' ↔ x = .ok a ∧ s = s' := by
  cases x with
  | ok b =>
    show EStateM.Result.ok b s = _ ↔ _
    simp
  | error v =>
    show EStateM.Result.error v s = _ ↔ _
    simp

/-- A rule that is looked at before the rest. -/
theorem guard_ok_iff {p : Prop} [Decidable p] {e : ε} {f : PUnit → EStateM ε σ α} {m : EStateM ε σ α} {a : α}
    {s s' : σ} : (if p then throw e >>= f else m) s = .ok a s' ↔ ¬p ∧ m s = .ok a s' := by
  by_cases held : p
  · simp [held, bind_ok_iff]
  · simp [held]

/-- A rule that is looked at last. -/
theorem last_guard_ok_iff {p : Prop} [Decidable p] {e : ε} {u : PUnit} {s s' : σ} :
    (if p then throw e else pure PUnit.unit : EStateM ε σ PUnit) s = .ok u s' ↔ ¬p ∧ s = s' := by
  by_cases held : p
  · simp [held]
  · simp [held]

end Outcome

end Wasm
