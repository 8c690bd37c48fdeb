import Wasm.Validate
import Wasm.Proofs.Binary.Producing
import Wasm.Proofs.Validator.Runs

/-! # Validation of bytes and of trees

A module that is decoded and validated in one pass and the tree of the same module that is replayed into a validator
have the same outcome, but that the first names the function in whose body an objection was raised.
-/

namespace Wasm

open Binary

/-- An objection to an item, named after the function if the item is a body; the state is the one before the item. -/
def Item.blame (v : Validator) : Item → Violation → Violation
  | .expr (.code _) _, w => .inFunction v.nextBody w
  | _, w => w

/-- What stands before the message of an objection to an item. -/
def Item.heading (v : Validator) : Item → String
  | .expr (.code _) _ => "function " ++ toString v.nextBody ++ ": "
  | _ => ""

theorem Item.blame_kind (v : Validator) (x : Item) (w : Violation) : (x.blame v w).kind = w.kind := by
  rcases x with _ | ⟨_ | _ | _ | _ | _, _⟩ <;> rfl

theorem Item.blame_message (v : Validator) (x : Item) (w : Violation) :
    (x.blame v w).message = x.heading v ++ w.message := by
  rcases x with _ | ⟨_ | _ | _ | _ | _, _⟩
  case expr.code => rfl
  all_goals exact String.empty_append.symm

namespace Consumer

variable {σ : Type} (C : Consumer σ)

theorem hear_item_error {funcs : List Nat} {x : Item} {s t : σ} {w : Violation} (rejected : C.item x s = .error w t) :
    C.hear (.item funcs x) s = .error (objection funcs w) t := by
  rw [hear, EStateM.adaptExcept, rejected]

end Consumer

namespace Validator

variable {v v' : Validator}

theorem nextBody_after (v : Validator) (x : Item) : (v.after x).nextBody = v.nextBody + x.functions := by
  have elim {α : Type} (o : Option α) (f : α → IndexSpace) (n : Nat)
      (same : ∀ a, (f a).importedFunctions = v.space.importedFunctions) :
      (o.elim v.space f).importedFunctions + n = v.space.importedFunctions + n := by
    cases o with
    | none => rfl
    | some a => exact congrArg (· + n) (same a)
  rcases x with (_ | _ | _ | ⟨_, _, _ | _ | _ | _⟩ | _ | _ | _ | _ | _ | _ | _ | _ | _) | ⟨_ | _ | _ | _ | _, _⟩
  case entry.type | entry.imported.table | entry.imported.global | entry.table | entry.element | expr.global =>
    exact elim _ _ _ fun _ => rfl
  case entry.imported.function => exact Nat.add_right_comm ..
  all_goals rfl

/-- Before the end of the module, a custom section is passed over. -/
theorem item_of_no_section {x : Item} (custom : x.section? = none) (open_ : v.position ≠ .finish) :
    consumer.item x v = .ok () v := by
  refine item_ok_iff.mpr ⟨⟨open_, by simp [custom]⟩, ?_⟩
  rcases x with (_ | _ | _ | _ | _ | _ | _ | _ | _ | _ | _ | _ | _) | ⟨_ | _ | _ | _ | _, _⟩
  case entry.custom => exact ⟨trivial, rfl⟩
  all_goals cases custom

theorem functions_of_no_section {x : Item} (custom : x.section? = none) : x.functions = 0 := by
  rcases x with (_ | _ | _ | _ | _ | _ | _ | _ | _ | _ | _ | _ | _) | ⟨_ | _ | _ | _ | _, _⟩
  case entry.custom => rfl
  all_goals cases custom

/-- Custom sections make no difference. -/
theorem hearAll_filter {xs : List Item} {n : Nat} (open_ : v.position ≠ .finish)
    (inside : ∀ x ∈ xs, x.section? ≠ some .finish) :
    consumer.hearAll (Notice.ofItems n (xs ++ [.entry .finish])) v =
      consumer.hearAll (Notice.ofItems n (xs.filter (·.section?.isSome) ++ [.entry .finish])) v := by
  induction xs generalizing v n with
  | nil => rfl
  | cons x xs ih =>
    obtain ⟨here, others⟩ := List.forall_mem_cons.mp inside
    cases section_ : x.section? with
    | none =>
      have heard := (consumer.hear_item_ok_iff (x.owners n)).mpr (item_of_no_section section_ open_)
      rw [List.cons_append, Notice.ofItems, Consumer.hearAll, Outcome.bind_of_ok heard, ih open_ others,
        functions_of_no_section section_, Nat.add_zero, List.filter_cons_of_neg (by simp [section_])]
    | some s =>
      rw [List.filter_cons_of_pos (by simp [section_]), List.cons_append, List.cons_append, Notice.ofItems,
        Notice.ofItems, Consumer.hearAll, Consumer.hearAll]
      cases one : consumer.hear (.item (x.owners n) x) v with
      | error e v' => rw [Outcome.bind_of_error one, Outcome.bind_of_error one]
      | ok u v' =>
        rw [Outcome.bind_of_ok one, Outcome.bind_of_ok one]
        refine ih ?_ others
        obtain ⟨-, -, rfl⟩ := item_ok_iff.mp ((consumer.hear_item_ok_iff _).mp one)
        show x.section?.getD v.position ≠ .finish
        rw [section_] at here ⊢
        exact fun same => here (congrArg some same)

theorem objection_owners (v : Validator) (x : Item) (w : Violation) :
    objection (x.owners v.nextBody) w = .violation (x.blame v w) := by
  rcases x with _ | ⟨_ | _ | _ | _ | _, _⟩ <;> rfl

/-- A run that is told with the numbers of functions breaks off where the run without them does. -/
theorem hearAll_of_items_error {xs : List Item} {w : Violation} (rejected : consumer.items xs v = .error w v') :
    ∃ before x after u, xs = before ++ x :: after ∧ consumer.items before v = .ok () u ∧
      consumer.item x u = .error w v' ∧
      consumer.hearAll (Notice.ofItems v.nextBody xs) v = .error (.violation (x.blame u w)) v' := by
  induction xs generalizing v with
  | nil => cases rejected
  | cons x xs ih =>
    rw [Consumer.items_cons] at rejected
    rw [Notice.ofItems, Consumer.hearAll]
    cases one : consumer.item x v with
    | error w' u =>
      rw [Outcome.bind_of_error one] at rejected
      cases rejected
      refine ⟨[], x, xs, v, rfl, rfl, one, ?_⟩
      rw [Outcome.bind_of_error (consumer.hear_item_error one), objection_owners]
    | ok _ u =>
      rw [Outcome.bind_of_ok one] at rejected
      obtain ⟨-, -, rfl⟩ := item_ok_iff.mp one
      obtain ⟨before, y, after, u, rfl, accepted, refused, heard⟩ := ih rejected
      refine ⟨x :: before, y, after, u, rfl, Consumer.items_cons_ok_iff.mpr ⟨_, one, accepted⟩, refused, ?_⟩
      rw [Outcome.bind_of_ok ((consumer.hear_item_ok_iff _).mpr one), ← nextBody_after]
      exact heard

end Validator

open Wasm.Tree

/-- Bytes that a builder takes tell the pieces of the tree that it builds. -/
theorem Binary.pieces_of_built {bytes : List UInt8} {b : Builder}
    (built : deliver Builder.consumer bytes {} = (.ok (), b)) :
    ∃ told c n version ps, Tells (fun _ C => Producer.produce C) (.ofBytes bytes) 0 told (.ok ((), c, n)) ∧
      told.filter (!·.isFrame) =
        Notice.ofItems 0 (.entry (.header version) :: ps.flatMap Piece.items ++ [.entry .finish]) ∧
      InOrder 0 ps ∧ (∀ p ∈ ps, p.trim = p) ∧ b.tree = ofPieces version ps := by
  obtain ⟨told, r, tells, good⟩ := Emits.produce (.ofBytes bytes) 0
  have delivered := deliver_of_tells tells Builder.consumer {}
  rw [built] at delivered
  cases heard : Builder.consumer.hearAll told {} with
  | error e b => rw [heard] at delivered; cases delivered
  | ok u b =>
    rw [heard] at delivered
    match r with
    | .error e => cases delivered
    | .ok (_, c, n) =>
      cases delivered
      obtain ⟨version, ps, ordered, trimmed, same⟩ := good _ _ _ rfl
      refine ⟨told, c, n, version, ps, tells, same, ordered, trimmed, ?_⟩
      obtain ⟨last, accepted⟩ := Builder.items_module version ps
      rw [Consumer.hearAll_frameless _ (fun _ _ => rfl), same, Consumer.hearAll_of_items _ accepted] at heard
      cases heard
      rw [List.map_congr_left trimmed, List.map_id']

/-- Replaying a tree tells the validator what the pieces tell that made up the tree. -/
theorem Validator.hearAll_replayed (version : UInt32) {ps : List Piece} (ordered : InOrder 0 ps) :
    consumer.hearAll (Notice.ofItems 0 (.entry (.header version) :: ps.flatMap Piece.items ++ [.entry .finish])) {} =
      consumer.hearAll (Notice.ofItems 0 (ofPieces version ps).items) {} := by
  have inside (ps : List Piece) : ∀ x ∈ (.entry (.header version) :: ps.flatMap Piece.items : List Item),
      x.section? ≠ some .finish := by
    refine List.forall_mem_cons.mpr ⟨nofun, fun x member => ?_⟩
    obtain ⟨p, _, here⟩ := List.mem_flatMap.mp member
    exact Piece.section_of_mem_items here ▸ p.section_ne_finish
  have proper (ps : List Piece) :
      (.entry (.header version) :: ps.flatMap Piece.items : List Item).filter (·.section?.isSome) =
        .entry (.header version) :: (ps.filter (·.section?.isSome)).flatMap Piece.items := by
    rw [List.filter_cons_of_pos rfl, filter_items]
  have same : (ps.filter (·.section?.isNone) ++ ps.filter (·.section?.isSome)).filter (·.section?.isSome) =
      ps.filter (·.section?.isSome) := by
    have none : (ps.filter (·.section?.isNone)).filter (·.section?.isSome) = [] := by
      refine List.filter_eq_nil_iff.mpr fun p member => ?_
      simp [Option.isNone_iff_eq_none.mp (List.mem_filter.mp member).2]
    rw [List.filter_append, none, List.filter_filter]
    simp
  have begun : ({} : Validator).position ≠ .finish := Section.noConfusion
  rw [items_eq_pieces, version_ofPieces, pieces_ofPieces version ordered, hearAll_filter begun (inside _),
    hearAll_filter begun (inside _), proper, proper, same]

theorem Validator.takes_of_site {x : Site} {v v' : Validator} {takes : Bool}
    (sited : consumer.site x v = .ok takes v') : takes = true := by
  obtain ⟨_, _, -, answer⟩ := Outcome.bind_ok_iff.mp sited
  cases answer
  rfl

/-- Behind a validator that accepts a tree, a builder builds it again. -/
theorem Tree.replay_withTree {t : Tree} {v : Validator} (trimmed : ∀ p ∈ t.pieces, p.trim = p)
    (accepted : t.replay Validator.consumer {} = .ok () v) :
    ∃ l, t.replay Validator.consumer.withTree ({}, { state := {} }) = .ok () (v, l) ∧ l.state.tree = t := by
  obtain ⟨last, built⟩ := replay_builder t
  rw [List.map_congr_left trimmed, List.map_id', ofPieces_pieces] at built
  let fresh : Listener Builder := { state := {} }
  obtain ⟨on, both⟩ := Consumer.follow_items_ok (D := Builder.consumer) (l := fresh)
    (fun _ _ _ _ => Validator.takes_of_site) accepted built
  exact ⟨⟨⟨t, last⟩, on⟩, both, rfl⟩

/-- Whether a module is valid does not depend on whether it is validated as it is decoded or from its tree. A builder
behind the validator that accepts the tree builds it again. Where the validator objects it does so to the same item for
the same reason, only that decoding puts the number of the function before an objection to a body. -/
theorem validate_agrees_with_replay {bytes : List UInt8} {b : Builder}
    (built : deliver Builder.consumer bytes {} = (.ok (), b)) :
    (∃ v l, validate bytes = .ok v.space ∧ b.tree.replay Validator.consumer {} = .ok () v ∧
      b.tree.replay Validator.consumer.withTree ({}, { state := {} }) = .ok () (v, l) ∧ l.state.tree = b.tree) ∨
    ∃ before x after u w v, b.tree.items = before ++ x :: after ∧
      Validator.consumer.items before {} = .ok () u ∧ Validator.consumer.item x u = .error w v ∧
      b.tree.replay Validator.consumer {} = .error w v ∧
      ∃ w', validate bytes = .error (.violation w') ∧ w'.kind = w.kind ∧ w'.message = x.heading u ++ w.message := by
  obtain ⟨told, c, n, version, ps, tells, same, ordered, trimmed, tree⟩ := pieces_of_built built
  have heard : Validator.consumer.hearAll told {} = Validator.consumer.hearAll (Notice.ofItems 0 b.tree.items) {} := by
    rw [Consumer.hearAll_frameless _ (fun _ _ => rfl), same, Validator.hearAll_replayed version ordered, tree]
  have delivered := deliver_of_tells tells Validator.consumer {}
  rw [heard] at delivered
  cases run : b.tree.replay Validator.consumer {} with
  | ok u v =>
    rw [Consumer.hearAll_of_items _ run] at delivered
    have kept : ∀ p ∈ b.tree.pieces, p.trim = p := by
      rw [tree, pieces_ofPieces version ordered]
      intro p member
      rw [List.mem_append, List.mem_filter, List.mem_filter] at member
      exact trimmed p (member.elim (·.1) (·.1))
    obtain ⟨l, again, rebuilt⟩ := replay_withTree kept run
    refine .inl ⟨v, l, ?_, rfl, again, rebuilt⟩
    rw [validate, delivered]
    rfl
  | error w v =>
    obtain ⟨before, x, after, u, split, accepted, refused, heard⟩ := Validator.hearAll_of_items_error run
    have heard : Validator.consumer.hearAll (Notice.ofItems 0 b.tree.items) {} =
        .error (.violation (x.blame u w)) v := heard
    rw [heard] at delivered
    refine .inr ⟨before, x, after, u, w, v, split, accepted, refused, rfl, x.blame u w, ?_, x.blame_kind u w,
      x.blame_message u w⟩
    rw [validate, delivered]

/-- A module with a function that gives no result, though its type asks for one. -/
def resultless : List UInt8 :=
  [0x00, 0x61, 0x73, 0x6d, 0x01, 0x00, 0x00, 0x00,
    0x01, 0x05, 0x01, 0x60, 0x00, 0x01, 0x7f, 0x03, 0x02, 0x01, 0x00, 0x0a, 0x04, 0x01, 0x02, 0x00, 0x0b]

theorem validate_agrees_with_replay_resultless :
    ∃ b w v, deliver Builder.consumer resultless {} = (.ok (), b) ∧ b.tree.replay Validator.consumer {} = .error w v ∧
      validate resultless = .error (.violation (.inFunction 0 .underflow)) ∧ w.kind = .typeMismatch := by
  have built : deliver Builder.consumer resultless {} =
      (.ok (), ⟨ofPieces 1 [.type ⟨[], [0x7f]⟩, .function 0, .body ⟨[], #[.end_]⟩], some (.code [])⟩) := by
    cbv
  have rejected : validate resultless = .error (.violation (.inFunction 0 .underflow)) := by cbv
  rcases validate_agrees_with_replay built with
    ⟨_, _, accepted, _⟩ | ⟨_, _, _, _, w, v, _, _, _, replayed, w', same, kind, _⟩
  · cases rejected.symm.trans accepted
  · cases rejected.symm.trans same
    exact ⟨_, w, v, built, replayed, rejected, kind.symm⟩

end Wasm
