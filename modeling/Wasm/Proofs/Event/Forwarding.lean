import Wasm.Event.Chain
import Wasm.Validator.Site
import Wasm.Proofs.Binary.Following
import Wasm.Proofs.Binary.Independence
import Wasm.Proofs.Event.Attempts

/-! # Consumers behind the validator

Consumers that object to nothing can be chained behind another one in any number: it gives the same verdicts as it gives
alone, and goes through the same states. Each of them is given what the head accepts, in order, and of an expression that
it declines nothing but the site.
-/

namespace Wasm

open Outcome

namespace Listener

variable {τ : Type} (D : Consumer τ)

/-- What a chained consumer makes of an event that the head has accepted. -/
def attend : Event → Step (Listener τ) Unit
  | .entry e => entry D e
  | .site x => site D x
  | .instruction i => inside (D.instruction i)
  | .exprEnd => inside D.exprEnd

def attendAll (es : List Event) (l : Listener τ) : Listener τ := es.foldl (fun l e => left (attend D e l)) l

variable {D}

theorem attend_isOk (obliging : D.Obliging) (e : Event) (l : Listener τ) : isOk (attend D e l) = true := by
  cases e with
  | entry e =>
    obtain ⟨u, t, heard⟩ := isOk_iff.mp (obliging.entry e l.state)
    rw [attend, entry, heard]
    rfl
  | site x =>
    obtain ⟨takes, t, heard⟩ := isOk_iff.mp (obliging.site x l.state)
    rw [attend, site, heard]
    rfl
  | instruction i => exact Consumer.Obliging.inside (obliging.instruction i) l
  | exprEnd => exact Consumer.Obliging.inside obliging.exprEnd l

theorem each_of_isOk {step : Step (Listener τ) Unit} (accepts : ∀ l, isOk (step l) = true) (ls : List (Listener τ)) :
    each step ls = .ok () (ls.map fun l => left (step l)) := by
  induction ls with
  | nil => rfl
  | cons l ls ih =>
    obtain ⟨u, l', heard⟩ := isOk_iff.mp (accepts l)
    rw [each, heard, List.map_cons, heard]
    dsimp only
    rw [ih]
    rfl

end Listener

namespace Consumer

variable {σ τ : Type} {C : Consumer σ} {D : Consumer τ}

/-! ## The head of a chain -/

theorem chain_event (e : Event) : (C.chain D).event e = relay (C.event e) (Listener.each (Listener.attend D e)) := by
  have answered (head : Step σ Unit) (behind : Step (List (Listener τ)) Unit) :
      (relay head behind >>= fun _ => pure false) = relay (head >>= fun _ => pure false) behind := by
    funext ⟨s, ls⟩
    show EStateM.bind _ _ _ = _
    unfold EStateM.bind relay
    dsimp only
    cases first : head s with
    | error v s' => rw [bind_of_error first]
    | ok u s' =>
      rw [bind_of_ok first]
      dsimp only [pure, EStateM.pure]
      cases behind ls <;> rfl
  cases e with
  | entry e => exact answered _ _
  | site x => rfl
  | instruction i => exact answered _ _
  | exprEnd => exact answered _ _

/-- The head decides on an event alone, and those behind it are given the event if it is accepted. -/
theorem chain_event_eq (obliging : D.Obliging) (e : Event) (s : σ) (ls : List (Listener τ)) :
    (C.chain D).event e (s, ls) =
      match C.event e s with
      | .ok takes s' => .ok takes (s', ls.map fun l => left (Listener.attend D e l))
      | .error v s' => .error v (s', ls) := by
  rw [chain_event]
  cases outcome : C.event e s with
  | error v s' => simp only [relay, outcome]
  | ok takes s' => simp only [relay, outcome, Listener.each_of_isOk (Listener.attend_isOk obliging e)]

theorem chain_after (obliging : D.Obliging) (es : List Event) (s : σ) (ls : List (Listener τ)) :
    (C.chain D).after es (s, ls) = (C.after es s, ls.map (Listener.attendAll D (C.accepted es s))) := by
  induction es generalizing s ls with
  | nil =>
    show (s, ls) = (s, ls.map fun l => l)
    rw [List.map_id']
  | cons e es ih =>
    show (C.chain D).after es (left ((C.chain D).event e (s, ls))) = (C.after es (left (C.event e s)), _)
    rw [chain_event_eq obliging]
    cases outcome : C.event e s with
    | error v s' =>
      rw [accepted_of_error outcome]
      exact ih s' ls
    | ok takes s' =>
      rw [accepted_of_ok outcome]
      refine (ih s' _).trans ?_
      rw [List.map_map]
      rfl

theorem chain_verdicts (obliging : D.Obliging) (es : List Event) (s : σ) (ls : List (Listener τ)) :
    (C.chain D).verdicts es (s, ls) = C.verdicts es s := by
  induction es generalizing s ls with
  | nil => rfl
  | cons e es ih =>
    rw [verdicts, verdicts, chain_event_eq obliging]
    cases C.event e s with
    | error v s' => exact congrArg (_ :: ·) (ih s' ls)
    | ok takes s' => exact congrArg (_ :: ·) (ih s' _)

/-! ## What is given to those behind it -/

/-- Whether the consumer takes the last expression, if `taken` says so of the time before an event. -/
def takes (D : Consumer τ) (taken : Bool) (t : τ) : Event → Bool
  | .site x =>
    match D.site x t with
    | .ok takes _ => takes
    | .error .. => false
  | _ => taken

/-- The events that are due to a consumer, out of those that were accepted before it: all that is not inside an expression,
and what is inside those expressions that it takes. -/
def due (D : Consumer τ) : List Event → (taken : Bool) → τ → List Event
  | [], _, _ => []
  | e :: es, taken, t =>
    if e.IsInside ∧ taken = false then D.due es taken t
    else e :: D.due es (D.takes taken t e) (left (D.event e t))

/-- Takes a step and writes down the event that it is for. -/
def noted {α : Type} (e : Event) (m : Step τ α) : Step (τ × List Event) α := fun (t, notes) =>
  match m t with
  | .ok a t => .ok a (t, notes ++ [e])
  | .error v t => .error v (t, notes ++ [e])

/-- Does what `D` does and writes down every event that it is given. -/
def noting (D : Consumer τ) : Consumer (τ × List Event) where
  entry e := noted (.entry e) (D.entry e)
  site x := noted (.site x) (D.site x)
  instruction i := noted (.instruction i) (D.instruction i)
  exprEnd := noted .exprEnd D.exprEnd
  frame f := fun (t, notes) => (D.frame f t, notes)

theorem noted_isOk {α : Type} (e : Event) {m : Step τ α} (accepts : ∀ t, isOk (m t) = true) (r : τ × List Event) :
    isOk (noted e m r) = true := by
  obtain ⟨t, notes⟩ := r
  obtain ⟨a, t', done⟩ := isOk_iff.mp (accepts t)
  rw [noted, done]
  rfl

theorem Obliging.noting (obliging : D.Obliging) : D.noting.Obliging where
  entry e := noted_isOk _ (obliging.entry e)
  site x := noted_isOk _ (obliging.site x)
  instruction i := noted_isOk _ (obliging.instruction i)
  exprEnd := noted_isOk _ obliging.exprEnd

/-- What a consumer that declined an expression is not given. -/
theorem attend_declined {e : Event} (inside : e.IsInside) (r : τ) :
    left (Listener.attend D e ⟨r, false⟩) = ⟨r, false⟩ := by
  cases e with
  | entry | site => exact inside.elim
  | instruction | exprEnd => rfl

theorem left_noted {α : Type} (e : Event) (m : Step τ α) (t : τ) (notes : List Event) :
    left (noted e m (t, notes)) = (left (m t), notes ++ [e]) := by
  rw [noted]
  cases m t <;> rfl

theorem left_inside (m : Step τ Unit) (t : τ) : left (Listener.inside m ⟨t, true⟩) = ⟨left (m t), true⟩ := by
  unfold Listener.inside
  dsimp only
  rw [if_pos rfl]
  cases m t <;> rfl

/-- What a consumer is given, it writes down. -/
theorem attend_noting {e : Event} {taken : Bool} (due : e.IsInside → taken = true) (t : τ) (notes : List Event) :
    left (Listener.attend D.noting e ⟨(t, notes), taken⟩) =
      ⟨(left (D.event e t), notes ++ [e]), D.takes taken t e⟩ := by
  cases e with
  | entry e =>
    rw [event, left_bind_pure, Listener.attend]
    cases heard : D.entry e t <;> simp only [Listener.entry, noting, noted, heard, left, takes]
  | site x =>
    rw [event, Listener.attend]
    cases heard : D.site x t <;> simp only [Listener.site, noting, noted, heard, left, takes]
  | instruction i =>
    obtain rfl := due trivial
    rw [event, left_bind_pure, Listener.attend, left_inside, noting, left_noted]
    rfl
  | exprEnd =>
    obtain rfl := due trivial
    rw [event, left_bind_pure, Listener.attend, left_inside, noting, left_noted]
    rfl

/-- A chained consumer is given the events that are due to it and no others. -/
theorem attendAll_noting (es : List Event) (taken : Bool) (t : τ) (notes : List Event) :
    (Listener.attendAll D.noting es ⟨(t, notes), taken⟩).state =
      (D.after (D.due es taken t) t, notes ++ D.due es taken t) := by
  induction es generalizing taken t notes with
  | nil => exact congrArg (t, ·) (List.append_nil notes).symm
  | cons e es ih =>
    show (Listener.attendAll D.noting es (left (Listener.attend D.noting e ⟨(t, notes), taken⟩))).state = _
    rw [due]
    split
    · rename_i declined
      obtain ⟨inside, rfl⟩ := declined
      rw [attend_declined inside, ih]
    · rename_i given
      rw [attend_noting (fun inside => by simpa [inside] using given), ih, List.append_assoc]
      rfl

end Consumer

namespace Validator

/-- Consumers that object to nothing make no difference to the validator that they are chained behind: every event gets the
verdict that it gets without them, also after others were rejected. Each of them is given the events that the validator
accepts, in their order, but for the inside of the expressions that it declines. -/
theorem chain_transparent {τ : Type} {D : Consumer τ} (obliging : D.Obliging) (es : List Event) (ts : List τ) :
    let chained := consumer.chain D.noting
    let fresh : List (Listener (τ × List Event)) := ts.map fun t => { state := (t, []) }
    chained.verdicts es ({}, fresh) = consumer.verdicts es {} ∧
    ∃ ls, chained.after es ({}, fresh) = (consumer.after es {}, ls) ∧
      ls.map (·.state) = ts.map fun t =>
        let given := D.due (consumer.accepted es {}) false t
        (D.after given t, given) := by
  refine ⟨Consumer.chain_verdicts obliging.noting es _ _, _, Consumer.chain_after obliging.noting es _ _, ?_⟩
  rw [List.map_map, List.map_map]
  refine List.map_congr_left fun t _ => ?_
  exact Consumer.attendAll_noting (consumer.accepted es {}) false t []

/-- A function of an unknown type and an instruction without its operand are rejected. -/
def interrupted : List Event :=
  [.entry (.type ⟨[], []⟩), .entry (.function 0), .entry (.function 1), .site (.code []), .instruction (.plain .nop),
    .instruction .drop, .instruction .end_, .exprEnd, .entry .finish]

/-- A tree builder and an idle consumer behind the validator: one takes the body, the other declines it. -/
theorem chain_transparent_interrupted :
    (Tree.Builder.consumer.either Consumer.idle).Obliging ∧
    ∃ v ls, (consumer.chain (Tree.Builder.consumer.either Consumer.idle).noting).after interrupted
        ({}, [{ state := (.inl {}, []) }, { state := (.inr (), []) }]) = (v, ls) ∧
      ls.map (·.state.2) =
        [[.entry (.type ⟨[], []⟩), .entry (.function 0), .site (.code []), .instruction (.plain .nop),
          .instruction .end_, .exprEnd, .entry .finish],
        [.entry (.type ⟨[], []⟩), .entry (.function 0), .site (.code []), .entry .finish]] := by
  have obliging := Tree.Builder.obliging.either Consumer.Obliging.idle
  obtain ⟨-, ls, reached, given⟩ := chain_transparent obliging interrupted [.inl {}, .inr ()]
  refine ⟨obliging, _, ls, reached, ?_⟩
  have notes := congrArg (List.map Prod.snd) given
  rw [List.map_map] at notes
  exact notes

end Validator

end Wasm
