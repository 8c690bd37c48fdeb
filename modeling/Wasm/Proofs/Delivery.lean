import Wasm.Event.Chain
import Wasm.Section
import Wasm.Proofs.Outcome

/-! # Delivery to a consumer

Delivering a list is delivering its first member and then the rest, and lists one after the other are delivered like
one list, up to the first objection. What is delivered comes in the order of sections.
-/

namespace Wasm

/-- All sections but the end of the module, in order. -/
def Section.inOrder : List Section :=
  [.header, .type, .imports, .function, .table, .memory, .global, .exports, .start, .element, .dataCount, .code,
    .data]

theorem Section.inOrder_pairwise : inOrder.Pairwise fun a b => a.rank < b.rank := by decide

theorem Section.inOrder_rank {s : Section} (notEnd : s ≠ .finish) : inOrder[s.rank]? = some s := by
  cases s with
  | finish => exact absurd rfl notEnd
  | _ => rfl

theorem Section.rank_of_inOrder {s : Section} {n : Nat} (here : inOrder[n]? = some s) : s.rank = n := by
  have ranks : inOrder.map rank = List.range 13 := rfl
  have ranked : (inOrder.map rank)[n]? = some s.rank := by rw [List.getElem?_map, here, Option.map_some]
  rw [ranks, List.getElem?_eq_some_iff] at ranked
  obtain ⟨_, equal⟩ := ranked
  rw [← equal, List.getElem_range]

/-- The section an item belongs to; custom sections belong nowhere. -/
def Item.section? : Item → Option Section
  | .entry (.header _) => some .header
  | .entry (.custom ..) => none
  | .entry (.type _) => some .type
  | .entry (.imported _) => some .imports
  | .entry (.function _) => some .function
  | .entry (.table _) => some .table
  | .entry (.memory _) => some .memory
  | .entry (.exported _) => some .exports
  | .entry (.start _) => some .start
  | .entry (.element _) => some .element
  | .entry (.dataCount _) => some .dataCount
  | .entry (.data _) => some .data
  | .entry .finish => some .finish
  | .expr (.global _) _ => some .global
  | .expr .elementOffset _ => some .element
  | .expr .elementItem _ => some .element
  | .expr (.code _) _ => some .code
  | .expr .dataOffset _ => some .data

namespace Consumer

variable {σ : Type} {C : Consumer σ}

theorem feed_cons (C : Consumer σ) (i : Instruction) (rest : List Instruction) :
    C.feed (i :: rest) = (C.instruction i >>= fun _ => C.feed rest) := by
  funext s
  show _ = EStateM.bind _ _ s
  rw [feed, EStateM.bind]
  dsimp only
  cases C.instruction i s <;> rfl

theorem items_cons (C : Consumer σ) (x : Item) (xs : List Item) :
    C.items (x :: xs) = (C.item x >>= fun _ => C.items xs) := by
  funext s
  show _ = EStateM.bind _ _ s
  rw [items, EStateM.bind]
  dsimp only
  cases C.item x s <;> rfl

theorem items_append (C : Consumer σ) (xs ys : List Item) :
    C.items (xs ++ ys) = (C.items xs >>= fun _ => C.items ys) := by
  induction xs with
  | nil => rfl
  | cons x xs ih => rw [List.cons_append, items_cons, items_cons, ih, bind_assoc]

theorem feed_cons_ok_iff {i : Instruction} {rest : List Instruction} {s s' : σ} {u : Unit} :
    C.feed (i :: rest) s = .ok u s' ↔ ∃ t, C.instruction i s = .ok () t ∧ C.feed rest t = .ok u s' := by
  rw [feed_cons, Outcome.bind_ok_iff]
  exact ⟨fun ⟨_, t, one, more⟩ => ⟨t, one, more⟩, fun ⟨t, one, more⟩ => ⟨(), t, one, more⟩⟩

theorem items_cons_ok_iff {x : Item} {xs : List Item} {s s' : σ} {u : Unit} :
    C.items (x :: xs) s = .ok u s' ↔ ∃ t, C.item x s = .ok () t ∧ C.items xs t = .ok u s' := by
  rw [items_cons, Outcome.bind_ok_iff]
  exact ⟨fun ⟨_, t, one, more⟩ => ⟨t, one, more⟩, fun ⟨t, one, more⟩ => ⟨(), t, one, more⟩⟩

/-! ## A consumer behind another -/

section Follow

variable {τ : Type} {D : Consumer τ} {s s' : σ} {l : Listener τ} {d : τ}

/-- If the head accepts a step and the one behind it does, so do both together. -/
theorem relay_ok {α ρ : Type} {head : Step σ α} {behind : Step ρ Unit} {a : α} {r r' : ρ}
    (first : head s = .ok a s') (second : behind r = .ok () r') : relay head behind (s, r) = .ok a (s', r') := by
  unfold relay
  dsimp only
  rw [first]
  dsimp only
  rw [second]

theorem inside_ok {m : Step τ Unit} (listens : l.listening = true → m l.state = .ok () d)
    (ignores : l.listening = false → d = l.state) : Listener.inside m l = .ok () ⟨d, l.listening⟩ := by
  obtain ⟨t, listening⟩ := l
  unfold Listener.inside
  cases listening with
  | true =>
    rw [listens rfl]
    rfl
  | false =>
    rw [ignores rfl]
    rfl

theorem follow_feed_ok {is : List Instruction} (first : C.feed is s = .ok () s')
    (listens : l.listening = true → D.feed is l.state = .ok () d) (ignores : l.listening = false → d = l.state) :
    (C.follow D).feed is (s, l) = .ok () (s', ⟨d, l.listening⟩) := by
  induction is generalizing s l with
  | nil => exact relay_ok first (inside_ok listens ignores)
  | cons i is ih =>
    obtain ⟨t, one, more⟩ := feed_cons_ok_iff.mp first
    obtain ⟨e, heard, rest⟩ : ∃ e, Listener.inside (D.instruction i) l = .ok () ⟨e, l.listening⟩ ∧
        (l.listening = true → D.feed is e = .ok () d) ∧ (l.listening = false → d = e) := by
      cases listening : l.listening with
      | true =>
        obtain ⟨e, one, more⟩ := feed_cons_ok_iff.mp (listens listening)
        refine ⟨e, ?_, fun _ => more, nofun⟩
        rw [← listening]
        exact inside_ok (fun _ => one) (fun off => nomatch listening.symm.trans off)
      | false =>
        refine ⟨l.state, ?_, nofun, fun _ => ignores listening⟩
        rw [← listening]
        exact inside_ok (fun on => nomatch listening.symm.trans on) (fun _ => rfl)
    have both : (C.follow D).instruction i (s, l) = .ok () (t, ⟨e, l.listening⟩) := relay_ok one heard
    rw [feed_cons, Outcome.bind_of_ok both]
    exact ih (l := ⟨e, l.listening⟩) more rest.1 rest.2

/-- A head that takes every expression does not stand in the way of what is behind it. -/
theorem follow_item_ok {x : Item} (takes : ∀ y t b t', C.site y t = .ok b t' → b = true)
    (first : C.item x s = .ok () s') (second : D.item x l.state = .ok () d) :
    ∃ on, (C.follow D).item x (s, l) = .ok () (s', ⟨d, on⟩) := by
  cases x with
  | entry e =>
    refine ⟨l.listening, relay_ok first ?_⟩
    have heard : D.entry e l.state = .ok () d := second
    rw [Listener.entry, heard]
  | expr y is =>
    obtain ⟨b, t, sited, fed⟩ := Outcome.bind_ok_iff.mp first
    obtain rfl := takes y s b t sited
    obtain ⟨on, e, behind, rest⟩ := Outcome.bind_ok_iff.mp second
    have both : (C.follow D).site y (s, l) = .ok true (t, ⟨e, on⟩) :=
      relay_ok sited (by rw [Listener.site, behind])
    refine ⟨on, ?_⟩
    rw [item, Outcome.bind_of_ok both]
    refine follow_feed_ok (l := ⟨e, on⟩) fed (fun listening => ?_) (fun off => ?_)
    · obtain rfl : on = true := listening
      exact rest
    · obtain rfl : on = false := off
      cases rest
      rfl

theorem follow_items_ok {xs : List Item} (takes : ∀ y t b t', C.site y t = .ok b t' → b = true)
    (first : C.items xs s = .ok () s') (second : D.items xs l.state = .ok () d) :
    ∃ on, (C.follow D).items xs (s, l) = .ok () (s', ⟨d, on⟩) := by
  induction xs generalizing s l with
  | nil =>
    cases first
    cases second
    exact ⟨l.listening, rfl⟩
  | cons x xs ih =>
    obtain ⟨t, one, more⟩ := items_cons_ok_iff.mp first
    obtain ⟨e, heard, rest⟩ := items_cons_ok_iff.mp second
    obtain ⟨on, both⟩ := follow_item_ok takes one heard
    obtain ⟨last, all⟩ := ih more (l := ⟨e, on⟩) rest
    exact ⟨last, by rw [items_cons, Outcome.bind_of_ok both, all]⟩

end Follow

end Consumer

end Wasm
