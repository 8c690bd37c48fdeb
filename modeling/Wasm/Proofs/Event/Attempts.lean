import Wasm.Event.Consumer
import Wasm.Proofs.Typing.Moves

/-! # Events that are delivered whatever becomes of them

A consumer that has objected to an event can be given the next one all the same, in the state that its objection left.
Along a list of events there are then a last state, a verdict on each event, and the events that were accepted. What the
last state has to do with the accepted events is shown for one event at a time.
-/

namespace Wasm

open Outcome

/-- What is said to a step, apart from the state that it leaves. -/
def Outcome.verdict {ε σ α : Type} : EStateM.Result ε σ α → Except ε α
  | .ok a _ => .ok a
  | .error e _ => .error e

/-- An answer that is given after a step changes nothing. -/
theorem Outcome.left_bind_pure {ε σ α β : Type} (m : EStateM ε σ α) (b : β) (s : σ) :
    left ((m >>= fun _ => pure b) s) = left (m s) := by
  cases done : m s with
  | ok a t =>
    rw [bind_of_ok done]
    rfl
  | error e t =>
    rw [bind_of_error done]
    rfl

namespace Consumer

variable {σ : Type} (C : Consumer σ)

/-- The state after events have been delivered, each of them whether or not those before it were accepted. -/
def after (es : List Event) (s : σ) : σ := es.foldl (fun s e => left (C.event e s)) s

/-- What is said to each event. -/
def verdicts : List Event → σ → List (Verdict Bool)
  | [], _ => []
  | e :: es, s => verdict (C.event e s) :: verdicts es (left (C.event e s))

/-- The events that are accepted. -/
def accepted : List Event → σ → List Event
  | [], _ => []
  | e :: es, s =>
    if isOk (C.event e s) then e :: accepted es (left (C.event e s)) else accepted es (left (C.event e s))

variable {C} {s t : σ} {e : Event} {es more : List Event}

theorem after_append : C.after (es ++ more) s = C.after more (C.after es s) := List.foldl_append

theorem accepted_of_ok {takes : Bool} (done : C.event e s = .ok takes t) :
    C.accepted (e :: es) s = e :: C.accepted es t := by
  rw [accepted, done]
  rfl

theorem accepted_of_error {v : Violation} (failed : C.event e s = .error v t) :
    C.accepted (e :: es) s = C.accepted es t := by
  rw [accepted, failed]
  rfl

theorem accepted_append : C.accepted (es ++ more) s = C.accepted es s ++ C.accepted more (C.after es s) := by
  induction es generalizing s with
  | nil => rfl
  | cons e es ih =>
    have rest : C.after (e :: es) s = C.after es (left (C.event e s)) := rfl
    rw [rest]
    cases outcome : C.event e s with
    | ok takes t => rw [List.cons_append, accepted_of_ok outcome, accepted_of_ok outcome, ih]; rfl
    | error v t => rw [List.cons_append, accepted_of_error outcome, accepted_of_error outcome, ih]; rfl

theorem accepted_sublist (es : List Event) (s : σ) : (C.accepted es s).Sublist es := by
  induction es generalizing s with
  | nil => exact .slnil
  | cons e es ih =>
    rw [accepted]
    split
    · exact (ih _).cons_cons e
    · exact (ih _).cons e

/-- What one event establishes of the state and the events accepted up to then, whether it is accepted or not, holds in the
end. -/
theorem holds_after {P : σ → List Event → Prop} (start : P s [])
    (accepts : ∀ t told e takes t', P t told → C.event e t = .ok takes t' → P t' (told ++ [e]))
    (rejects : ∀ t told e v t', P t told → C.event e t = .error v t' → P t' told) (es : List Event) :
    P (C.after es s) (C.accepted es s) := by
  induction es using List.reverseRecOn with
  | nil => exact start
  | append_singleton es e ih =>
    rw [after_append, accepted_append]
    show P (left (C.event e (C.after es s))) _
    cases outcome : C.event e (C.after es s) with
    | ok takes t =>
      rw [accepted_of_ok outcome]
      exact accepts _ _ e takes t ih outcome
    | error v t =>
      rw [accepted_of_error outcome, accepted, List.append_nil]
      exact rejects _ _ e v t ih outcome

/-- An accepted event was accepted in the state that the events delivered before it had left. -/
theorem delivered_of_accepted {before later : List Event} (split : C.accepted es s = before ++ e :: later) :
    ∃ done takes t, C.accepted done s = before ∧ C.event e (C.after done s) = .ok takes t := by
  induction es generalizing s before with
  | nil => cases before <;> cases split
  | cons d es ih =>
    cases outcome : C.event d s with
    | error v t =>
      rw [accepted_of_error outcome] at split
      obtain ⟨done, takes, u, same, accepts⟩ := ih split
      have rest : C.after (d :: done) s = C.after done t := congrArg (C.after done) (congrArg left outcome)
      exact ⟨d :: done, takes, u, by rw [accepted_of_error outcome, same], by rw [rest, accepts]⟩
    | ok takes t =>
      rw [accepted_of_ok outcome] at split
      cases before with
      | nil =>
        obtain ⟨rfl, -⟩ := List.cons.inj split
        exact ⟨[], takes, t, rfl, outcome⟩
      | cons b before =>
        obtain ⟨rfl, tail⟩ := List.cons.inj split
        obtain ⟨done, takes, u, same, accepts⟩ := ih tail
        have rest : C.after (d :: done) s = C.after done t := congrArg (C.after done) (congrArg left outcome)
        exact ⟨d :: done, takes, u, by rw [accepted_of_ok outcome, same], by rw [rest, accepts]⟩

end Consumer

end Wasm
