import Wasm.Proofs.Binary.Conduct

/-! # Decoding does not depend on the consumer

The outcome of a delivery is the same for every consumer, whether it takes expressions or declines them, unless the
consumer objects to an event. Then the outcome is its objection, which names a function if the event belongs to the body
of one. Functions are numbered in the order in which they are imported or given a body.
-/

namespace Wasm

open Binary Outcome

/-- Functions counted along the events of a module, and the one whose body was begun last, while it lasts. -/
structure Roll where
  next : Nat := 0
  current : Option Nat := none

def Roll.record (r : Roll) : Event → Roll
  | .entry e => ⟨r.next + Item.functions (.entry e), none⟩
  | .site (.code _) => ⟨r.next + 1, some r.next⟩
  | .site _ => ⟨r.next, none⟩
  | .instruction _ | .exprEnd => r

def Roll.of (events : List Event) : Roll := events.foldl record {}

theorem Roll.of_append (events more : List Event) : of (events ++ more) = more.foldl record (of events) :=
  List.foldl_append

/-- A violation as it is reported in the body of a function. -/
def Violation.reported (v : Violation) : Option Nat → Violation
  | none => v
  | some func => .inFunction func v

/-- The event belongs to the expression that was begun last. -/
def Event.IsInside : Event → Prop
  | .instruction _ | .exprEnd => True
  | .entry _ | .site _ => False

instance : DecidablePred Event.IsInside
  | .instruction _ | .exprEnd => .isTrue trivial
  | .entry _ | .site _ => .isFalse id

theorem Roll.record_inside (r : Roll) {events : List Event} (inside : ∀ e ∈ events, e.IsInside) :
    events.foldl record r = r := by
  induction events with
  | nil => rfl
  | cons e events ih =>
    obtain ⟨here, others⟩ := List.forall_mem_cons.mp inside
    cases e with
    | entry | site => exact here.elim
    | instruction | exprEnd => exact ih others

namespace Consumer

variable {σ α : Type}

/-- The consumer accepted one event after the other; it is told in between where sections lie. -/
inductive Took (C : Consumer σ) (s : σ) : List Event → σ → Prop where
  | start : Took C s [] s
  | frame {calls : List Event} {t : σ} (f : SectionFrame) (took : Took C s calls t) : Took C s calls (C.frame f t)
  | event {calls : List Event} {t t' : σ} {e : Event} {takes : Bool} (took : Took C s calls t)
      (accepted : C.event e t = .ok takes t') : Took C s (calls ++ [e]) t'

/-- The consumer took events and objected to the one after them. -/
def ObjectsTo (C : Consumer σ) (s : σ) (calls : List Event) (e : Event) (v : Violation) (t : σ) : Prop :=
  ∃ t', C.Took s calls t' ∧ C.event e t' = .error v t

/-- A step that delivers events of one expression, up to the first objection. -/
structure Delivers (C : Consumer σ) (m : Step σ α) : Prop where
  accepts : ∀ s calls t a t', C.Took s calls t → m t = .ok a t' →
    ∃ more, (∀ e ∈ more, e.IsInside) ∧ C.Took s (calls ++ more) t'
  objects : ∀ s calls t v t', C.Took s calls t → m t = .error v t' →
    ∃ more e, (∀ e' ∈ more ++ [e], e'.IsInside) ∧ C.ObjectsTo s (calls ++ more) e v t'

variable {C : Consumer σ}

theorem Delivers.pure (a : α) : C.Delivers (Pure.pure a) where
  accepts s calls t b t' took done := by
    cases done
    exact ⟨[], List.forall_mem_nil _, by rwa [List.append_nil]⟩
  objects s calls t v t' took failed := by cases failed

theorem Delivers.bind {β : Type} {m : Step σ α} {k : α → Step σ β} (first : C.Delivers m)
    (second : ∀ a, C.Delivers (k a)) : C.Delivers (m >>= k) where
  accepts s calls t b t' took done := by
    obtain ⟨a, u, one, two⟩ := bind_ok_iff.mp done
    obtain ⟨more, inside, took⟩ := first.accepts s calls t a u took one
    obtain ⟨rest, inside', took⟩ := (second a).accepts s _ u b t' took two
    refine ⟨more ++ rest, List.forall_mem_append.mpr ⟨inside, inside'⟩, ?_⟩
    rwa [← List.append_assoc]
  objects s calls t v t' took failed := by
    cases one : m t with
    | error w u =>
      rw [bind_of_error one] at failed
      cases failed
      exact first.objects s calls t v t' took one
    | ok a u =>
      rw [bind_of_ok one] at failed
      obtain ⟨more, inside, took⟩ := first.accepts s calls t a u took one
      obtain ⟨rest, e, inside', objects⟩ := (second a).objects s _ u v t' took failed
      refine ⟨more ++ rest, e, ?_, ?_⟩
      · rw [List.append_assoc]
        exact List.forall_mem_append.mpr ⟨inside, inside'⟩
      · rwa [← List.append_assoc]

/-- An event inside an expression, whose answer is not looked at. -/
theorem Delivers.event {m : Step σ Unit} {e : Event} (inside : e.IsInside)
    (same : C.event e = (m >>= fun _ => Pure.pure false)) : C.Delivers m where
  accepts s calls t a t' took done := by
    have accepted : C.event e t = .ok false t' := by
      rw [same, bind_of_ok done]
      rfl
    exact ⟨[e], List.forall_mem_singleton.mpr inside, took.event accepted⟩
  objects s calls t v t' took failed := by
    refine ⟨[], e, List.forall_mem_singleton.mpr inside, t, by rwa [List.append_nil], ?_⟩
    rw [same, bind_of_error failed]

theorem delivers_feed (body : List Instruction) : C.Delivers (C.feed body) := by
  induction body with
  | nil => exact .event (e := .exprEnd) trivial rfl
  | cons i rest ih =>
    rw [feed_cons]
    exact (Delivers.event (e := .instruction i) trivial rfl).bind fun _ => ih

theorem delivers_feedOpen (body : List Instruction) : C.Delivers (C.feedOpen body) := by
  induction body with
  | nil => exact .pure ()
  | cons i rest ih => exact (Delivers.event (e := .instruction i) trivial rfl).bind fun _ => ih

/-- A step that begins with an event, and then delivers events of the expression that the event begins, if any. -/
structure Begins (C : Consumer σ) (m : Step σ Unit) (first : Event) : Prop where
  accepts : ∀ s calls t u t', C.Took s calls t → m t = .ok u t' →
    ∃ calls', C.Took s calls' t' ∧ Roll.of calls' = (Roll.of calls).record first
  objects : ∀ s calls t v t', C.Took s calls t → m t = .error v t' →
    ∃ calls' e, C.ObjectsTo s calls' e v t' ∧ Roll.of (calls' ++ [e]) = (Roll.of calls).record first

theorem begins_entry (e : Entry) : C.Begins (C.entry e) (.entry e) where
  accepts s calls t u t' took done := by
    have accepted : C.event (.entry e) t = .ok false t' := by
      show (C.entry e >>= fun _ => Pure.pure false) t = _
      rw [bind_of_ok done]
      rfl
    exact ⟨calls ++ [.entry e], took.event accepted, Roll.of_append _ _⟩
  objects s calls t v t' took failed := by
    have objects : C.event (.entry e) t = .error v t' := by
      show (C.entry e >>= fun _ => Pure.pure false) t = _
      rw [bind_of_error failed]
    exact ⟨calls, .entry e, ⟨t, took, objects⟩, Roll.of_append _ _⟩

/-- What follows a site depends on whether the expression there is taken, but belongs to that site in any case. -/
theorem begins_site (site : Site) {m : Step σ Unit} (delivers : C.Delivers m) :
    C.Begins (do let takes ← C.site site; if takes then m) (.site site) := by
  have rest (takes : Bool) : C.Delivers (if takes then m else Pure.pure ()) := by
    cases takes with
    | true => exact delivers
    | false => exact .pure ()
  constructor
  · intro s calls t u t' took done
    obtain ⟨takes, t₁, sited, more⟩ := bind_ok_iff.mp done
    have took : C.Took s (calls ++ [.site site]) t₁ := took.event sited
    obtain ⟨inner, inside, took⟩ := (rest takes).accepts s _ t₁ u t' took more
    refine ⟨_, took, ?_⟩
    rw [Roll.of_append, Roll.record_inside _ inside, Roll.of_append]
    rfl
  · intro s calls t v t' took failed
    cases sited : C.site site t with
    | error w t₁ =>
      rw [bind_of_error sited] at failed
      cases failed
      exact ⟨calls, .site site, ⟨t, took, sited⟩, Roll.of_append _ _⟩
    | ok takes t₁ =>
      rw [bind_of_ok sited] at failed
      have took : C.Took s (calls ++ [.site site]) t₁ := took.event sited
      obtain ⟨inner, e, inside, objects⟩ := (rest takes).objects s _ t₁ v t' took failed
      refine ⟨_, e, objects, ?_⟩
      rw [List.append_assoc, Roll.of_append, Roll.record_inside _ inside, Roll.of_append]
      rfl

end Consumer

/-- The event that an item begins with. -/
def Item.opening : Item → Event
  | .entry e => .entry e
  | .expr site _ => .site site

theorem Roll.next_record (r : Roll) (x : Item) : (r.record x.opening).next = r.next + x.functions := by
  cases x with
  | entry e => rfl
  | expr site body => cases site <;> rfl

/-- Objections name the function that is on the roll. -/
theorem Roll.objection_record (r : Roll) (x : Item) (v : Violation) :
    objection (x.owners r.next) v = .violation (v.reported (r.record x.opening).current) := by
  cases x with
  | entry e => rfl
  | expr site body => cases site <;> rfl

namespace Consumer

variable {σ : Type} {C : Consumer σ}

theorem begins_item (x : Item) : C.Begins (C.item x) x.opening := by
  cases x with
  | entry e => exact begins_entry e
  | expr site body => exact begins_site site (delivers_feed body)

/-- A notice that is told for an item, with the index of its function. -/
theorem hear_begun {x : Item} {m : Step σ Unit} (begins : C.Begins m x.opening) {s t t' : σ} {calls : List Event} {n : Nat}
    (took : C.Took s calls t) (count : (Roll.of calls).next = n) :
    (∀ u, EStateM.adaptExcept (objection (x.owners n)) m t = .ok u t' →
      ∃ calls', C.Took s calls' t' ∧ (Roll.of calls').next = n + x.functions) ∧
    ∀ e, EStateM.adaptExcept (objection (x.owners n)) m t = .error e t' →
      ∃ calls' ev v, C.ObjectsTo s calls' ev v t' ∧ e = .violation (v.reported (Roll.of (calls' ++ [ev])).current) := by
  unfold EStateM.adaptExcept
  subst count
  constructor
  · intro u done
    cases ran : m t with
    | error v t₁ => rw [ran] at done; cases done
    | ok u t₁ =>
      rw [ran] at done
      cases done
      obtain ⟨calls', took, roll⟩ := begins.accepts s calls t () t' took ran
      exact ⟨calls', took, by rw [roll, Roll.next_record]⟩
  · intro e failed
    cases ran : m t with
    | ok u t₁ => rw [ran] at failed; cases failed
    | error v t₁ =>
      rw [ran] at failed
      cases failed
      obtain ⟨calls', ev, objects, roll⟩ := begins.objects s calls t v t' took ran
      exact ⟨calls', ev, v, objects, by rw [roll, Roll.objection_record]⟩

/-- One notice that comes where it may: it is taken and functions are counted on, or it is objected to. -/
theorem hear_allowed {p : Place} {x : Notice} (allowed : p.Allows x) {s t t' : σ} {calls : List Event}
    (took : C.Took s calls t) (count : (Roll.of calls).next = p.functions) :
    (∀ u, C.hear x t = .ok u t' → ∃ calls', C.Took s calls' t' ∧ (Roll.of calls').next = (p.after x).functions) ∧
    ∀ e, C.hear x t = .error e t' →
      ∃ calls' ev v, C.ObjectsTo s calls' ev v t' ∧ e = .violation (v.reported (Roll.of (calls' ++ [ev])).current) := by
  cases x with
  | item funcs x =>
    obtain ⟨rfl, -⟩ := allowed
    exact hear_begun (begins_item x) took count
  | cut funcs site body =>
    obtain ⟨rfl, -⟩ := allowed
    exact hear_begun (x := .expr site body) (begins_site site (delivers_feedOpen body)) took count
  | frame f =>
    refine ⟨fun u done => ?_, fun e failed => ?_⟩
    · cases done
      exact ⟨calls, took.frame f, count⟩
    · cases failed

theorem objection_of_hearAll {p : Place} {told : List Notice} (orderly : p.Orderly told) {s t t' : σ} {calls : List Event}
    {e : DecodeError} (took : C.Took s calls t) (count : (Roll.of calls).next = p.functions)
    (failed : C.hearAll told t = .error e t') :
    ∃ calls' ev v, C.ObjectsTo s calls' ev v t' ∧ e = .violation (v.reported (Roll.of (calls' ++ [ev])).current) := by
  induction told generalizing p calls t with
  | nil => cases failed
  | cons x told ih =>
    cases heard : C.hear x t with
    | error e' t₁ =>
      rw [hearAll, bind_of_error heard] at failed
      cases failed
      exact (hear_allowed orderly.1 took count).2 e heard
    | ok u t₁ =>
      rw [hearAll, bind_of_ok heard] at failed
      obtain ⟨calls', took, count⟩ := (hear_allowed orderly.1 took count).1 u heard
      exact ih orderly.2 took count failed

/-- The idle consumer has no objections. -/
theorem hearAll_idle (told : List Notice) : idle.hearAll told () = .ok () () := by
  induction told with
  | nil => rfl
  | cons x told ih =>
    have heard : idle.hear x () = .ok () () := by
      cases x with
      | item funcs x => cases x <;> rfl
      | cut | frame => rfl
    rw [hearAll, bind_of_ok heard, ih]

end Consumer

namespace Binary

/-- The outcome of decoding is the same for every consumer and the idle one, unless the consumer objects to an event.
Then the outcome is that objection, and it names the function that the event belongs to, if it is an event of a body. What
the idle consumer sees is never an objection. -/
theorem deliver_independent_of_consumer {σ : Type} (C : Consumer σ) (bytes : List UInt8) (s : σ) :
    ((deliver C bytes s).1 = (deliver Consumer.idle bytes ()).1 ∨
      ∃ calls e v t, C.ObjectsTo s calls e v t ∧
        deliver C bytes s = (.error (.violation (v.reported (Roll.of (calls ++ [e])).current)), t)) ∧
    ((∀ e t, isOk (C.event e t) = true) → (deliver C bytes s).1 = (deliver Consumer.idle bytes ()).1) ∧
    ∀ v, (deliver Consumer.idle bytes ()).1 ≠ .error (.violation v) := by
  obtain ⟨told, r, tells, orderly, fault, -⟩ := Proceeds.produce (.ofBytes bytes)
  have idle : (deliver Consumer.idle bytes ()).1 = r.map fun _ => () := by
    rw [deliver_of_tells tells, Consumer.hearAll_idle]
  have either : (deliver C bytes s).1 = (deliver Consumer.idle bytes ()).1 ∨
      ∃ calls e v t, C.ObjectsTo s calls e v t ∧
        deliver C bytes s = (.error (.violation (v.reported (Roll.of (calls ++ [e])).current)), t) := by
    rw [idle, deliver_of_tells tells]
    cases heard : C.hearAll told s with
    | ok u t => exact .inl rfl
    | error e t =>
      obtain ⟨calls, ev, v, objects, rfl⟩ := Consumer.objection_of_hearAll orderly .start rfl heard
      exact .inr ⟨calls, ev, v, t, objects, rfl⟩
  refine ⟨either, fun accepts => ?_, fun v violation => ?_⟩
  · rcases either with same | ⟨calls, e, v, t, ⟨t', -, objects⟩, -⟩
    · exact same
    · have accepted := accepts e t'
      rw [objects] at accepted
      cases accepted
  · rw [idle] at violation
    cases r with
    | ok done => cases violation
    | error e =>
      cases violation
      exact fault _ rfl

end Binary

end Wasm
