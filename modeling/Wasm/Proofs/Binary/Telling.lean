import Wasm.Binary.Producer
import Wasm.Proofs.Delivery

/-! # What a producer tells

What a producer tells its consumer is settled by the bytes alone: a list of notices, which is the same for every
consumer, and a result, which is the producer's own unless the consumer objects to one of the notices first.
-/

namespace Wasm

namespace Binary

/-- What is told at a time. What belongs to the body of a function carries the index of the function, which an
objection will name; bodies do not nest, but the list spares saying so. -/
inductive Notice where
  | item (funcs : List Nat) (x : Item)
  /-- An expression of which only a part can be decoded. -/
  | cut (funcs : List Nat) (site : Site) (body : List Instruction)
  | frame (f : SectionFrame)

/-- An objection as it leaves the producer. -/
def objection (funcs : List Nat) (v : Violation) : DecodeError := funcs.foldr DecodeError.inFunction (.violation v)

/-- The notice inside the body of a function. -/
def Notice.inBody (func : Nat) : Notice → Notice
  | item funcs x => item (func :: funcs) x
  | cut funcs site body => cut (func :: funcs) site body
  | frame f => frame f

end Binary

open Binary

namespace Consumer

variable {σ ρ : Type} (C : Consumer σ)

/-- The beginning of an expression. -/
def feedOpen : List Instruction → Step σ Unit
  | [] => pure ()
  | i :: rest => do
    C.instruction i
    feedOpen rest

/-- An expression is its instructions and then its end. -/
theorem feed_eq (body : List Instruction) : C.feed body = (C.feedOpen body >>= fun _ => C.exprEnd) := by
  induction body with
  | nil => rfl
  | cons i rest ih => rw [feed_cons, feedOpen, bind_assoc, ih]

/-- An expression that breaks off. -/
def cut (site : Site) (body : List Instruction) : Step σ Unit := do
  let takes ← C.site site
  if takes then C.feedOpen body

def hear : Notice → EStateM DecodeError σ Unit
  | .item funcs x => EStateM.adaptExcept (objection funcs) (C.item x)
  | .cut funcs site body => EStateM.adaptExcept (objection funcs) (C.cut site body)
  | .frame f => modify (C.frame f)

/-- Notices in order, up to the first objection. -/
def hearAll : List Notice → EStateM DecodeError σ Unit
  | [] => pure ()
  | x :: xs => do
    C.hear x
    hearAll xs

/-- The result is given if there is no objection to what comes before it. -/
def heard (told : List Notice) (r : Except DecodeError ρ) (t : σ) : Except DecodeError ρ × σ :=
  match C.hearAll told t with
  | .ok _ t => (r, t)
  | .error e t => (.error e, t)

theorem hearAll_append (xs ys : List Notice) :
    C.hearAll (xs ++ ys) = (C.hearAll xs >>= fun _ => C.hearAll ys) := by
  induction xs with
  | nil => rfl
  | cons x xs ih => rw [List.cons_append, hearAll, hearAll, ih, bind_assoc]

theorem heard_append (told more : List Notice) (r : Except DecodeError ρ) (t : σ) :
    C.heard (told ++ more) r t =
      match C.heard told (.ok ()) t with
      | (.ok _, t) => C.heard more r t
      | (.error e, t) => (.error e, t) := by
  unfold heard
  rw [hearAll_append]
  cases first : C.hearAll told t with
  | ok u t => rw [Outcome.bind_of_ok first]
  | error e t => rw [Outcome.bind_of_error first]

theorem heard_item (funcs : List Nat) (x : Item) (r : Except DecodeError ρ) (t : σ) :
    C.heard [.item funcs x] r t =
      match C.item x t with
      | .ok _ t => (r, t)
      | .error v t => (.error (objection funcs v), t) := by
  simp only [heard, hearAll, hear, bind_pure_unit, EStateM.adaptExcept]
  cases C.item x t <;> rfl

theorem heard_cut (funcs : List Nat) (site : Site) (body : List Instruction) (r : Except DecodeError ρ) (t : σ) :
    C.heard [.cut funcs site body] r t =
      match C.cut site body t with
      | .ok _ t => (r, t)
      | .error v t => (.error (objection funcs v), t) := by
  simp only [heard, hearAll, hear, bind_pure_unit, EStateM.adaptExcept]
  cases C.cut site body t <;> rfl

theorem hear_inBody (func : Nat) (x : Notice) (t : σ) :
    C.hear (x.inBody func) t = EStateM.adaptExcept (DecodeError.inFunction func) (C.hear x) t := by
  cases x with
  | item funcs x =>
    simp only [hear, Notice.inBody, EStateM.adaptExcept]
    cases C.item x t <;> rfl
  | cut funcs site body =>
    simp only [hear, Notice.inBody, EStateM.adaptExcept]
    cases C.cut site body t <;> rfl
  | frame f => rfl

/-- In a body, objections name its function. -/
theorem hearAll_inBody (func : Nat) (told : List Notice) (t : σ) :
    C.hearAll (told.map (Notice.inBody func)) t =
      EStateM.adaptExcept (DecodeError.inFunction func) (C.hearAll told) t := by
  induction told generalizing t with
  | nil => rfl
  | cons x xs ih =>
    have first := C.hear_inBody func x t
    rw [List.map_cons, hearAll, hearAll]
    unfold EStateM.adaptExcept at first ih ⊢
    cases one : C.hear x t with
    | ok u s =>
      rw [one] at first
      rw [Outcome.bind_of_ok first, Outcome.bind_of_ok one, ih]
    | error e s =>
      rw [one] at first
      rw [Outcome.bind_of_error first, Outcome.bind_of_error one]

end Consumer

namespace Binary

namespace Producer

variable {σ α β : Type}

/-- How a run ended, and the consumer's state. Where in the bytes a run failed makes no difference. -/
def ends : EStateM.Result DecodeError (Session σ) α → Except DecodeError (α × Cursor × Nat) × σ
  | .ok a s => (.ok (a, s.cursor, s.nextFunction), s.consumer)
  | .error e s => (.error e, s.consumer)

theorem ends_bind (m : Producer σ α) (f : α → Producer σ β) (s : Session σ) :
    ends ((m >>= f) s) =
      match ends (m s) with
      | (.ok (a, c, n), t) => ends (f a ⟨c, t, n⟩)
      | (.error e, t) => (.error e, t) := by
  cases first : m s with
  | ok a s => rw [Outcome.bind_of_ok first]; rfl
  | error e s => rw [Outcome.bind_of_error first]; rfl

theorem ends_read (m : Decoder α) (s : Session σ) :
    ends (Producer.read m s) =
      match m s.cursor with
      | .ok a c => (.ok (a, c, s.nextFunction), s.consumer)
      | .error e _ => (.error e, s.consumer) := by
  unfold Producer.read
  dsimp only
  cases m s.cursor <;> rfl

theorem ends_tell (m : Step σ α) (s : Session σ) :
    ends (tell m s) =
      match m s.consumer with
      | .ok a t => (.ok (a, s.cursor, s.nextFunction), t)
      | .error v t => (.error (.violation v), t) := by
  unfold tell
  dsimp only
  cases m s.consumer <;> rfl

theorem ends_within (content : Cursor) (m : Producer σ α) (s : Session σ) :
    ends (within content m s) =
      match ends (m { s with cursor := content }) with
      | (.ok (a, _, n), t) => (.ok (a, s.cursor, n), t)
      | (.error e, t) => (.error e, t) := by
  unfold within
  dsimp only
  cases m ⟨content, s.consumer, s.nextFunction⟩ <;> rfl

theorem ends_adaptExcept (f : DecodeError → DecodeError) (m : Producer σ α) (s : Session σ) :
    ends (EStateM.adaptExcept f m s) =
      match ends (m s) with
      | (.ok x, t) => (.ok x, t)
      | (.error e, t) => (.error (f e), t) := by
  unfold EStateM.adaptExcept
  cases m s <;> rfl

end Producer

open Producer

variable {α β : Type}

/-- Producers for every consumer. -/
abbrev Speaker (α : Type) := (σ : Type) → Consumer σ → Producer σ α

/-- From a place in the bytes and a number of functions on, the same is told to every consumer, and the result is the
same unless the consumer objects. -/
def Tells (P : Speaker α) (c : Cursor) (n : Nat) (told : List Notice) (r : Except DecodeError (α × Cursor × Nat)) :
    Prop :=
  ∀ (σ : Type) (C : Consumer σ) (t : σ), ends (P σ C ⟨c, t, n⟩) = C.heard told r t

namespace Tells

variable {P : Speaker α} {Q : α → Speaker β} {c d : Cursor} {n m : Nat} {told more : List Notice}

theorem pure (a : α) (c : Cursor) (n : Nat) : Tells (fun _ _ => Pure.pure a) c n [] (.ok (a, c, n)) :=
  fun _ _ _ => rfl

theorem throw (e : DecodeError) (c : Cursor) (n : Nat) :
    Tells (α := α) (fun _ _ => MonadExcept.throw e) c n [] (.error e) :=
  fun _ _ _ => rfl

theorem bind {a : α} {r : Except DecodeError (β × Cursor × Nat)} (first : Tells P c n told (.ok (a, d, m)))
    (second : Tells (Q a) d m more r) :
    Tells (fun σ C => P σ C >>= fun a => Q a σ C) c n (told ++ more) r := by
  intro σ C t
  rw [ends_bind, first σ C t, Consumer.heard_append]
  unfold Consumer.heard
  cases C.hearAll told t with
  | ok u t => exact second σ C t
  | error e t => rfl

theorem bind_error {e : DecodeError} (first : Tells P c n told (.error e)) :
    Tells (fun σ C => P σ C >>= fun a => Q a σ C) c n told (.error e) := by
  intro σ C t
  rw [ends_bind, first σ C t]
  unfold Consumer.heard
  cases C.hearAll told t <;> rfl

/-- Decoding tells nothing. -/
theorem read_ok {m : Decoder α} {a : α} (decoded : m c = .ok a d) :
    Tells (fun _ _ => Producer.read m) c n [] (.ok (a, d, n)) := by
  intro σ C t
  rw [ends_read, decoded]
  rfl

theorem read_error {m : Decoder α} {e : DecodeError} (failed : m c = .error e d) :
    Tells (fun _ _ => Producer.read m) c n [] (.error e) := by
  intro σ C t
  rw [ends_read, failed]
  rfl

theorem item (x : Item) (c : Cursor) (n : Nat) :
    Tells (fun _ C => tell (C.item x)) c n [.item [] x] (.ok ((), c, n)) := by
  intro σ C t
  rw [ends_tell, Consumer.heard_item]
  cases C.item x t <;> rfl

theorem entry (e : Entry) (c : Cursor) (n : Nat) :
    Tells (fun _ C => Producer.entry C e) c n [.item [] (.entry e)] (.ok ((), c, n)) :=
  item (.entry e) c n

theorem takeFunction (c : Cursor) (n : Nat) : Tells (fun _ _ => Producer.takeFunction) c n [] (.ok (n, c, n + 1)) :=
  fun _ _ _ => rfl

theorem unused (c : Cursor) (n : Nat) : Tells (fun _ _ => Producer.unused) c n [] (.ok (c.remaining, c, n)) :=
  fun _ _ _ => rfl

theorem within {content : Cursor} {r : Except DecodeError (α × Cursor × Nat)} (inside : Tells P content n told r)
    (c : Cursor) :
    Tells (fun σ C => Producer.within content (P σ C)) c n told (r.map fun (a, _, m) => (a, c, m)) := by
  intro σ C t
  rw [ends_within, inside σ C t]
  unfold Consumer.heard
  cases C.hearAll told t with
  | ok u t => cases r <;> rfl
  | error e t => rfl

/-- In the body of a function, objections name the function; faults of the bytes do not. -/
theorem inBody {r : Except DecodeError (α × Cursor × Nat)} (func : Nat) (inside : Tells P c n told r) :
    Tells (fun σ C => EStateM.adaptExcept (DecodeError.inFunction func) (P σ C)) c n
      (told.map (Notice.inBody func)) (r.mapError (DecodeError.inFunction func)) := by
  intro σ C t
  rw [ends_adaptExcept, inside σ C t]
  unfold Consumer.heard
  rw [Consumer.hearAll_inBody]
  unfold EStateM.adaptExcept
  cases C.hearAll told t with
  | ok u t => cases r <;> rfl
  | error e t => rfl

end Tells

/-! ## Expressions -/

theorem Decoder.expressionOnto_ok {depth : Nat} {before : Expr} {i : Instruction} {c d : Cursor}
    (decoded : Decoder.instruction c = .ok i d) :
    Decoder.expressionOnto depth before c =
      match i.nesting depth with
      | some depth => Decoder.expressionOnto depth (before.push i) d
      | none => .ok (before.push i) d := by
  rw [Decoder.expressionOnto]
  split
  · rename_i failed
    rw [decoded] at failed
    cases failed
  · rename_i same
    rw [decoded] at same
    cases same
    rfl

theorem Decoder.expressionOnto_error {depth : Nat} {before : Expr} {e : DecodeError} {c d : Cursor}
    (failed : Decoder.instruction c = .error e d) : Decoder.expressionOnto depth before c = .error e d := by
  rw [Decoder.expressionOnto]
  split
  · rename_i same
    rw [failed] at same
    cases same
    rfl
  · rename_i decoded
    rw [failed] at decoded
    cases decoded

/-- Instructions that were decoded one after the other, from `depth` open blocks on. The last of them closes the expression
if it is whole, and otherwise none does. -/
inductive Decoded : (depth : Nat) → List Instruction → (whole : Bool) → Prop where
  | closed {i : Instruction} {c d : Cursor} {depth : Nat} (decoded : Decoder.instruction c = .ok i d)
      (closes : i.nesting depth = none) : Decoded depth [i] true
  | broken (depth : Nat) : Decoded depth [] false
  | more {i : Instruction} {c d : Cursor} {depth inner : Nat} {is : List Instruction} {whole : Bool}
      (decoded : Decoder.instruction c = .ok i d) (goes : i.nesting depth = some inner) (rest : Decoded inner is whole) :
      Decoded depth (i :: is) whole

namespace Producer

variable {σ : Type} {C : Consumer σ}

theorem expressionFrom_ok (takes : Bool) (depth : Nat) {i : Instruction} {s : Session σ} {d : Cursor}
    (decoded : Decoder.instruction s.cursor = .ok i d) :
    expressionFrom C takes depth s =
      match tellIf takes (C.instruction i) s.consumer with
      | .error v t => .error (.violation v) ⟨d, t, s.nextFunction⟩
      | .ok _ t =>
        match i.nesting depth with
        | some depth => expressionFrom C takes depth ⟨d, t, s.nextFunction⟩
        | none => tell (tellIf takes C.exprEnd) ⟨d, t, s.nextFunction⟩ := by
  obtain ⟨c, t, n⟩ := s
  rw [expressionFrom]
  split
  · rename_i failed
    rw [decoded] at failed
    cases failed
  · rename_i same
    rw [decoded] at same
    cases same
    rfl

theorem expressionFrom_error {takes : Bool} {depth : Nat} {e : DecodeError} {s : Session σ} {d : Cursor}
    (failed : Decoder.instruction s.cursor = .error e d) :
    expressionFrom C takes depth s = .error e ⟨d, s.consumer, s.nextFunction⟩ := by
  obtain ⟨c, t, n⟩ := s
  rw [expressionFrom]
  split
  · rename_i same
    rw [failed] at same
    cases same
    rfl
  · rename_i decoded
    rw [failed] at decoded
    cases decoded

/-- The result is given if the consumer does not object. -/
def answered {ρ : Type} (m : Step σ Unit) (r : Except DecodeError ρ) (t : σ) : Except DecodeError ρ × σ :=
  match m t with
  | .ok _ t => (r, t)
  | .error v t => (.error (.violation v), t)

theorem ends_tell_unit (m : Step σ Unit) (s : Session σ) :
    ends (tell m s) = answered m (.ok ((), s.cursor, s.nextFunction)) s.consumer := by
  rw [ends_tell, answered]
  cases m s.consumer <;> rfl

/-- A step before the others, each told if the consumer takes the expression. -/
theorem answered_tellIf {ρ : Type} (takes : Bool) (first second : Step σ Unit) (r : Except DecodeError ρ) (t : σ) :
    answered (tellIf takes (first >>= fun _ => second)) r t =
      match tellIf takes first t with
      | .ok _ t => answered (tellIf takes second) r t
      | .error v t => (.error (.violation v), t) := by
  cases takes with
  | false => rfl
  | true =>
    unfold answered
    simp only [tellIf, if_true]
    cases run : first t with
    | ok u t => rw [Outcome.bind_of_ok run]
    | error v t => rw [Outcome.bind_of_error run]

/-- What can be decoded of an expression is told, and its end only if all of it can be decoded. -/
theorem expressionFrom_cases (depth : Nat) (c : Cursor) :
    (∃ is d, Decoded depth is true ∧
      (∀ before, Decoder.expressionOnto depth before c = .ok (before ++ is.toArray) d) ∧
      ∀ (σ : Type) (C : Consumer σ) takes t n, ends (expressionFrom C takes depth ⟨c, t, n⟩) =
        answered (tellIf takes (C.feed is)) (.ok ((), d, n)) t) ∨
    ∃ is e d, Decoded depth is false ∧ (∀ before, Decoder.expressionOnto depth before c = .error e d) ∧
      ∀ (σ : Type) (C : Consumer σ) takes t n, ends (expressionFrom C takes depth ⟨c, t, n⟩) =
        answered (tellIf takes (C.feedOpen is)) (.error e) t := by
  induction size : c.rest.length using Nat.strongRecOn generalizing c depth with
  | ind size ih =>
    cases decoded : Decoder.instruction c with
    | error e d =>
      refine .inr ⟨[], e, d, .broken depth, fun _ => Decoder.expressionOnto_error decoded, fun σ C takes t n => ?_⟩
      rw [expressionFrom_error (by exact decoded)]
      cases takes <;> rfl
    | ok i d =>
      have one (σ : Type) (C : Consumer σ) (takes : Bool) (t : σ) (n : Nat) :=
        expressionFrom_ok (C := C) takes depth (s := ⟨c, t, n⟩) decoded
      cases nested : i.nesting depth with
      | none =>
        refine .inl ⟨[i], d, .closed decoded nested, fun before => ?_, fun σ C takes t n => ?_⟩
        · rw [Decoder.expressionOnto_ok decoded, nested]
          simp
        · rw [one, nested, Consumer.feed_cons, answered_tellIf]
          cases tellIf takes (C.instruction i) t with
          | ok u t => exact ends_tell_unit (tellIf takes C.exprEnd) ⟨d, t, n⟩
          | error v t => rfl
      | some inner =>
        have shrinks := Decoder.instruction_shrinks decoded
        rcases ih d.rest.length (size ▸ shrinks) inner d rfl with
          ⟨is, later, parts, whole, same⟩ | ⟨is, e, later, parts, failed, same⟩
        · refine .inl ⟨i :: is, later, .more decoded nested parts, fun before => ?_, fun σ C takes t n => ?_⟩
          · rw [Decoder.expressionOnto_ok decoded, nested]
            simp [whole]
          · rw [one, nested, Consumer.feed_cons, answered_tellIf]
            cases tellIf takes (C.instruction i) t with
            | ok u t => exact same σ C takes t n
            | error v t => rfl
        · refine .inr ⟨i :: is, e, later, .more decoded nested parts, fun before => ?_, fun σ C takes t n => ?_⟩
          · rw [Decoder.expressionOnto_ok decoded, nested]
            exact failed _
          · rw [one, nested, Consumer.feedOpen, answered_tellIf]
            cases tellIf takes (C.instruction i) t with
            | ok u t => exact same σ C takes t n
            | error v t => rfl

end Producer

theorem decoded_of_expression {c d : Cursor} {body : Expr} (decoded : Decoder.expression c = .ok body d) :
    Decoded 0 body.toList true := by
  rcases expressionFrom_cases 0 c with ⟨is, later, parts, whole, -⟩ | ⟨is, e, later, -, failed, -⟩
  · obtain rfl : body = is.toArray := by
      rw [Decoder.expression, whole] at decoded
      cases decoded
      simp
    exact parts
  · rw [Decoder.expression, failed] at decoded
    cases decoded

namespace Tells

variable {x : Site} {c d : Cursor} {n : Nat}

/-- A site, and then what the consumer is told if it takes the expression there. -/
theorem ends_site {σ : Type} {C : Consumer σ} {m : Step σ Unit} {r : Except DecodeError (Unit × Cursor × Nat)} {t : σ}
    (inside : ∀ takes t, ends (expressionFrom C takes 0 ⟨c, t, n⟩) = answered (tellIf takes m) r t) :
    ends (Producer.expression C x ⟨c, t, n⟩) =
      answered (do let takes ← C.site x; if takes then m) r t := by
  unfold Producer.expression
  rw [ends_bind, ends_tell]
  unfold answered
  cases run : C.site x t with
  | error v t => rw [Outcome.bind_of_error run]
  | ok takes t => rw [Outcome.bind_of_ok run]; exact inside takes t

/-- An expression that can be decoded is told as a whole. -/
theorem expression_ok {body : Expr} (decoded : Decoder.expression c = .ok body d) :
    Tells (fun _ C => Producer.expression C x) c n [.item [] (.expr x body.toList)] (.ok ((), d, n)) := by
  intro σ C t
  rw [Consumer.heard_item]
  rcases expressionFrom_cases 0 c with ⟨is, later, -, whole, same⟩ | ⟨is, e, later, -, failed, -⟩
  · obtain ⟨rfl, rfl⟩ : body = is.toArray ∧ d = later := by
      rw [Decoder.expression, whole] at decoded
      cases decoded
      simp
    exact ends_site fun takes t => same σ C takes t n
  · rw [Decoder.expression, failed] at decoded
    cases decoded

/-- An expression that cannot be decoded is told as far as it can be. -/
theorem expression_error {e : DecodeError} (failed : Decoder.expression c = .error e d) :
    ∃ is, Decoded 0 is false ∧ Tells (fun _ C => Producer.expression C x) c n [.cut [] x is] (.error e) := by
  rcases expressionFrom_cases 0 c with ⟨is, later, -, whole, -⟩ | ⟨is, e, later, parts, same, told⟩
  · rw [Decoder.expression, whole] at failed
    cases failed
  · rw [Decoder.expression, same] at failed
    cases failed
    refine ⟨is, parts, fun σ C t => ?_⟩
    rw [Consumer.heard_cut]
    exact ends_site fun takes t => told σ C takes t n

end Tells

end Binary

end Wasm
