import Wasm.Tree.Builder
import Wasm.Proofs.Binary.Conduct

/-! # Consumers that oblige

A consumer that objects to nothing makes no difference to the one that it stands behind: both together accept what the
first accepts alone, object to what it objects to, and leave it in the state that it would be left in.
-/

namespace Wasm

open Binary Outcome

section Projections

variable {ε σ ρ α β : Type}

/-- An outcome with something beside the state. -/
def Outcome.beside (r : ρ) : EStateM.Result ε σ α → EStateM.Result ε (σ × ρ) α
  | .ok a s => .ok a (s, r)
  | .error e s => .error e (s, r)

/-- If no step fails, all of them together do not. -/
theorem Outcome.isOk_bind {m : EStateM ε σ α} {f : α → EStateM ε σ β} (first : ∀ s, isOk (m s) = true)
    (second : ∀ a s, isOk (f a s) = true) (s : σ) : isOk ((m >>= f) s) = true := by
  obtain ⟨a, t, done⟩ := isOk_iff.mp (first s)
  rw [bind_of_ok done]
  exact second a t

/-- A computation on pairs has the outcome that another one has on their first parts. -/
def Projects (m : EStateM ε (σ × ρ) α) (n : EStateM ε σ α) : Prop := ∀ s r, ∃ r', m (s, r) = beside r' (n s)

namespace Projects

variable {m : EStateM ε (σ × ρ) α} {n : EStateM ε σ α}

theorem pure (a : α) : Projects (ε := ε) (σ := σ) (ρ := ρ) (Pure.pure a) (Pure.pure a) := fun _ r => ⟨r, rfl⟩

theorem bind {f : α → EStateM ε (σ × ρ) β} {g : α → EStateM ε σ β} (first : Projects m n)
    (second : ∀ a, Projects (f a) (g a)) : Projects (m >>= f) (n >>= g) := by
  intro s r
  obtain ⟨r', same⟩ := first s r
  cases alone : n s with
  | ok a t =>
    rw [alone] at same
    rw [bind_of_ok alone, bind_of_ok same]
    exact second a t r'
  | error e t =>
    rw [alone] at same
    exact ⟨r', by rw [bind_of_error alone, bind_of_error same]; rfl⟩

theorem adaptExcept {δ : Type} (f : ε → δ) (projects : Projects m n) :
    Projects (EStateM.adaptExcept f m) (EStateM.adaptExcept f n) := by
  intro s r
  obtain ⟨r', same⟩ := projects s r
  refine ⟨r', ?_⟩
  unfold EStateM.adaptExcept
  rw [same]
  cases n s <;> rfl

end Projects

end Projections

namespace Consumer

variable {σ ρ τ α : Type}

/-- The consumer objects to nothing. -/
structure Obliging (D : Consumer τ) : Prop where
  entry : ∀ e t, isOk (D.entry e t) = true
  site : ∀ x t, isOk (D.site x t) = true
  instruction : ∀ i t, isOk (D.instruction i t) = true
  exprEnd : ∀ t, isOk (D.exprEnd t) = true

theorem relay_projects (head : Step σ α) {behind : Step ρ Unit} (obliging : ∀ r, isOk (behind r) = true) :
    Projects (relay head behind) head := by
  intro s r
  unfold relay
  dsimp only
  cases head s with
  | error v s => exact ⟨r, rfl⟩
  | ok a s =>
    obtain ⟨u, r', heard⟩ := isOk_iff.mp (obliging r)
    rw [heard]
    exact ⟨r', rfl⟩

namespace Obliging

variable {C : Consumer σ} {D : Consumer τ}

theorem follow_entry (obliging : D.Obliging) (e : Entry) : Projects ((C.follow D).entry e) (C.entry e) := by
  refine relay_projects _ fun l => ?_
  obtain ⟨u, t, heard⟩ := isOk_iff.mp (obliging.entry e l.state)
  rw [Listener.entry, heard]
  rfl

theorem follow_site (obliging : D.Obliging) (x : Site) : Projects ((C.follow D).site x) (C.site x) := by
  refine relay_projects _ fun l => ?_
  obtain ⟨takes, t, heard⟩ := isOk_iff.mp (obliging.site x l.state)
  rw [Listener.site, heard]
  rfl

theorem inside {m : Step τ Unit} (accepts : ∀ t, isOk (m t) = true) (l : Listener τ) :
    isOk (Listener.inside m l) = true := by
  obtain ⟨u, t, heard⟩ := isOk_iff.mp (accepts l.state)
  rw [Listener.inside, heard]
  split <;> rfl

theorem follow_instruction (obliging : D.Obliging) (i : Instruction) :
    Projects ((C.follow D).instruction i) (C.instruction i) :=
  relay_projects _ (inside (obliging.instruction i))

theorem follow_exprEnd (obliging : D.Obliging) : Projects (C.follow D).exprEnd C.exprEnd :=
  relay_projects _ (inside obliging.exprEnd)

theorem follow_feedOpen (obliging : D.Obliging) (body : List Instruction) :
    Projects ((C.follow D).feedOpen body) (C.feedOpen body) := by
  induction body with
  | nil => exact .pure ()
  | cons i rest ih => exact (obliging.follow_instruction i).bind fun _ => ih

theorem follow_feed (obliging : D.Obliging) (body : List Instruction) :
    Projects ((C.follow D).feed body) (C.feed body) := by
  rw [feed_eq, feed_eq]
  exact (obliging.follow_feedOpen body).bind fun _ => obliging.follow_exprEnd

/-- What is told at a site is told to both, if the first takes the expression. -/
theorem follow_taken (obliging : D.Obliging) (x : Site) {m : Step (σ × Listener τ) Unit} {n : Step σ Unit}
    (inside : Projects m n) :
    Projects (do let takes ← (C.follow D).site x; if takes then m) (do let takes ← C.site x; if takes then n) := by
  refine (obliging.follow_site x).bind fun takes => ?_
  cases takes with
  | true => exact inside
  | false => exact .pure ()

theorem follow_hear (obliging : D.Obliging) (x : Notice) : Projects ((C.follow D).hear x) (C.hear x) := by
  cases x with
  | item funcs x =>
    cases x with
    | entry e => exact (obliging.follow_entry e).adaptExcept _
    | expr x body => exact (obliging.follow_taken x (obliging.follow_feed body)).adaptExcept _
  | cut funcs x body => exact (obliging.follow_taken x (obliging.follow_feedOpen body)).adaptExcept _
  | frame f => exact fun s l => ⟨_, rfl⟩

theorem follow_hearAll (obliging : D.Obliging) (told : List Notice) :
    Projects ((C.follow D).hearAll told) (C.hearAll told) := by
  induction told with
  | nil => exact .pure ()
  | cons x told ih => exact (obliging.follow_hear x).bind fun _ => ih

/-- Bytes are delivered to a consumer as if there were no obliging one behind it. -/
theorem deliver_follow (obliging : D.Obliging) (bytes : List UInt8) (s : σ) (l : Listener τ) :
    ∃ l', deliver (C.follow D) bytes (s, l) = ((deliver C bytes s).1, (deliver C bytes s).2, l') := by
  obtain ⟨told, r, tells, -⟩ := Proceeds.produce (.ofBytes bytes)
  obtain ⟨l', same⟩ := obliging.follow_hearAll (C := C) told s l
  refine ⟨l', ?_⟩
  rw [deliver_of_tells tells, deliver_of_tells tells, same]
  cases C.hearAll told s <;> rfl

theorem accepts_feedOpen (obliging : D.Obliging) (body : List Instruction) (t : τ) :
    isOk (D.feedOpen body t) = true := by
  induction body generalizing t with
  | nil => rfl
  | cons i rest ih => exact isOk_bind (obliging.instruction i) (fun _ => ih) t

theorem accepts_feed (obliging : D.Obliging) (body : List Instruction) (t : τ) : isOk (D.feed body t) = true := by
  rw [feed_eq]
  exact isOk_bind (obliging.accepts_feedOpen body) (fun _ => obliging.exprEnd) t

/-- What follows a site is accepted, taken or not. -/
theorem accepts_taken (obliging : D.Obliging) (x : Site) {m : Step τ Unit} (inside : ∀ t, isOk (m t) = true) (t : τ) :
    isOk ((do let takes ← D.site x; if takes then m : Step τ Unit) t) = true := by
  refine isOk_bind (obliging.site x) (fun takes t => ?_) t
  cases takes with
  | true => exact inside t
  | false => rfl

theorem accepts_hear (obliging : D.Obliging) (x : Notice) (t : τ) : isOk (D.hear x t) = true := by
  have adapted {m : Step τ Unit} (accepts : ∀ t, isOk (m t) = true) (funcs : List Nat) :
      isOk (EStateM.adaptExcept (objection funcs) m t) = true := by
    obtain ⟨u, t', done⟩ := isOk_iff.mp (accepts t)
    rw [EStateM.adaptExcept, done]
    rfl
  cases x with
  | item funcs x =>
    cases x with
    | entry e => exact adapted (obliging.entry e) funcs
    | expr x body => exact adapted (obliging.accepts_taken x (obliging.accepts_feed body)) funcs
  | cut funcs x body => exact adapted (obliging.accepts_taken x (obliging.accepts_feedOpen body)) funcs
  | frame f => rfl

theorem accepts_hearAll (obliging : D.Obliging) (told : List Notice) (t : τ) : isOk (D.hearAll told t) = true := by
  induction told generalizing t with
  | nil => rfl
  | cons x told ih => exact isOk_bind (obliging.accepts_hear x) (fun _ => ih) t

/-- Bytes that any consumer accepts to their end are accepted by an obliging one. -/
theorem deliver_of_deliver (obliging : D.Obliging) {bytes : List UInt8} {s s' : σ}
    (accepted : deliver C bytes s = (.ok (), s')) (t : τ) : ∃ t', deliver D bytes t = (.ok (), t') := by
  obtain ⟨told, r, tells, -⟩ := Proceeds.produce (.ofBytes bytes)
  rw [deliver_of_tells tells] at accepted
  obtain ⟨u, t', heard⟩ := isOk_iff.mp (obliging.accepts_hearAll told t)
  refine ⟨t', ?_⟩
  rw [deliver_of_tells tells, heard]
  cases reached : C.hearAll told s with
  | ok u s =>
    rw [reached] at accepted
    have result : r.map (fun _ => ()) = .ok () := congrArg Prod.fst accepted
    exact congrArg (·, t') result
  | error e s =>
    rw [reached] at accepted
    cases accepted

/-- One of two obliging consumers, as the state says. -/
theorem either (first : C.Obliging) (second : D.Obliging) : (C.either D).Obliging := by
  have onLeft {α : Type} {m : Step σ α} (accepts : ∀ s, isOk (m s) = true) (s : σ) :
      isOk (onLeft (τ := τ) m s) = true := by
    obtain ⟨a, s', done⟩ := isOk_iff.mp (accepts s)
    rw [Consumer.onLeft, done]
    rfl
  have onRight {α : Type} {m : Step τ α} (accepts : ∀ t, isOk (m t) = true) (t : τ) :
      isOk (onRight (σ := σ) m t) = true := by
    obtain ⟨a, t', done⟩ := isOk_iff.mp (accepts t)
    rw [Consumer.onRight, done]
    rfl
  constructor
  · rintro e (s | t)
    · exact onLeft (first.entry e) s
    · exact onRight (second.entry e) t
  · rintro x (s | t)
    · exact onLeft (first.site x) s
    · exact onRight (second.site x) t
  · rintro i (s | t)
    · exact onLeft (first.instruction i) s
    · exact onRight (second.instruction i) t
  · rintro (s | t)
    · exact onLeft first.exprEnd s
    · exact onRight second.exprEnd t

theorem idle : Consumer.idle.Obliging where
  entry _ _ := rfl
  site _ _ := rfl
  instruction _ _ := rfl
  exprEnd _ := rfl

end Obliging

end Consumer

theorem Tree.Builder.obliging : Tree.Builder.consumer.Obliging where
  entry _ _ := rfl
  site x b := by
    show isOk (if b.tree.hasPlace x then _ else _) = true
    split <;> rfl
  instruction _ _ := rfl
  exprEnd _ := rfl

end Wasm
