import Wasm.Proofs.Validator.Items

/-! # Runs of the validator

A run over a list of items succeeds when their sections come in order and each item breaks no rule in the state that
the items before it lead to. Those states are a fold, whether or not the run succeeds, and each of their fields is a
fold of its own.
-/

namespace Wasm

/-- Sections that may come one after the other, from a position on. -/
def Ordered : List Item → Section → Prop
  | [], _ => True
  | x :: xs, p => (p ≠ .finish ∧ ∀ s ∈ x.section?, p.rank ≤ s.rank) ∧ Ordered xs (x.section?.getD p)

/-- The position after a list of items. -/
def lastSection (xs : List Item) (p : Section) : Section := xs.foldl (fun p x => x.section?.getD p) p

namespace Validator

/-- No rule but the order of sections is broken. -/
def JudgesAll (v : Validator) : List Item → Prop
  | [] => True
  | x :: xs => v.Judges x ∧ (v.receive x).JudgesAll xs

/-- The state after items, but for the position. -/
def receiveAll (v : Validator) (xs : List Item) : Validator := xs.foldl receive v

/-- No rule but the order reads the position. -/
theorem judges_moveTo (v : Validator) (p : Section) (x : Item) : (v.moveTo p).Judges x ↔ v.Judges x := by
  rcases x with (_ | _ | _ | _ | _ | _ | _ | _ | _ | _ | _ | _ | _) | ⟨_ | _ | _ | _ | _, _⟩ <;> rfl

theorem judgesAll_moveTo (v : Validator) (p : Section) (xs : List Item) :
    (v.moveTo p).JudgesAll xs ↔ v.JudgesAll xs := by
  induction xs generalizing v with
  | nil => rfl
  | cons x xs ih => exact and_congr (judges_moveTo v p x) (ih (v.receive x))

theorem receiveAll_moveTo (v : Validator) (p : Section) (xs : List Item) :
    (v.moveTo p).receiveAll xs = (v.receiveAll xs).moveTo p := by
  induction xs generalizing v with
  | nil => rfl
  | cons x xs ih => exact ih (v.receive x)

/-- A run succeeds when sections come in order and no other rule is broken. -/
theorem items_ok_iff {v v' : Validator} {xs : List Item} {u : Unit} :
    consumer.items xs v = .ok u v' ↔
      Ordered xs v.position ∧ v.JudgesAll xs ∧ v' = (v.receiveAll xs).moveTo (lastSection xs v.position) := by
  induction xs generalizing v with
  | nil =>
    simp only [Ordered, JudgesAll, true_and]
    exact pure_ok_iff
  | cons x xs ih =>
    rw [Consumer.items_cons_ok_iff]
    simp only [item_ok_iff, ih]
    constructor
    · rintro ⟨_, ⟨follows, judges, rfl⟩, ordered, rest, rfl⟩
      refine ⟨⟨follows, ordered⟩, ⟨judges, (judgesAll_moveTo _ _ _).mp rest⟩, ?_⟩
      rw [after, receiveAll_moveTo]
      rfl
    · rintro ⟨⟨follows, ordered⟩, ⟨judges, rest⟩, rfl⟩
      refine ⟨_, ⟨follows, judges, rfl⟩, ordered, (judgesAll_moveTo _ _ _).mpr rest, ?_⟩
      rw [after, receiveAll_moveTo]
      rfl

theorem receiveAll_append (v : Validator) (xs ys : List Item) :
    v.receiveAll (xs ++ ys) = (v.receiveAll xs).receiveAll ys := List.foldl_append

theorem judgesAll_append {v : Validator} {xs ys : List Item} :
    v.JudgesAll (xs ++ ys) ↔ v.JudgesAll xs ∧ (v.receiveAll xs).JudgesAll ys := by
  induction xs generalizing v with
  | nil => simp [JudgesAll, receiveAll]
  | cons x xs ih =>
    simp only [List.cons_append, JudgesAll, ih, and_assoc]
    rfl

/-- Items that make no difference to each other are judged each by itself. -/
theorem judgesAll_map_iff {α : Type} {f : α → Item} {v : Validator} {as : List α}
    (steady : ∀ (v : Validator) (a b : α), (v.receive (f a)).Judges (f b) ↔ v.Judges (f b)) :
    v.JudgesAll (as.map f) ↔ ∀ a ∈ as, v.Judges (f a) := by
  induction as generalizing v with
  | nil => simp [JudgesAll]
  | cons a as ih =>
    rw [List.map_cons, JudgesAll, ih, List.forall_mem_cons]
    simp only [steady]

theorem receiveAll_space (v : Validator) (xs : List Item) :
    (v.receiveAll xs).space = xs.foldl IndexSpace.add v.space := by
  induction xs generalizing v with
  | nil => rfl
  | cons x xs ih => exact ih (v.receive x)

theorem declaring_append (refs : FuncRefs) (first second : List UInt32) :
    declaring refs (first ++ second) = declaring (declaring refs first) second := List.foldl_append

theorem receiveAll_refs (v : Validator) (xs : List Item) :
    (v.receiveAll xs).refs = declaring v.refs (xs.flatMap Item.mentions) := by
  induction xs generalizing v with
  | nil => rfl
  | cons x xs ih =>
    rw [List.flatMap_cons, declaring_append]
    exact ih (v.receive x)

end Validator

end Wasm
