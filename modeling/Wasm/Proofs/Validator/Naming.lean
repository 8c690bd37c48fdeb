import Wasm.Proofs.Binary.Reaching
import Wasm.Proofs.Validator.Agreement
import Wasm.Proofs.Validator.Conformance
import Wasm.Proofs.Validator.Nameless

/-! # Objections name the right function

Two counts are kept of the functions of a module: the producer counts those that it has seen imported or given a body,
and the validator adds the bodies it was told of to the functions that it knows to be imported. Whenever a body is come
to, both give the index of the same function. So the name that the producer puts before an objection is that of the
function whose body the validator was checking, and it puts one there in bodies only.
-/

namespace Wasm

open Binary Producer

namespace Item

def isFunctionImport : Item → Bool
  | .entry (.imported ⟨_, _, .function _⟩) => true
  | _ => false

def isBody : Item → Bool
  | .expr (.code _) _ => true
  | _ => false

theorem functions_eq (x : Item) :
    x.functions = (if x.isFunctionImport then 1 else 0) + if x.isBody then 1 else 0 := by
  rcases x with (_ | _ | _ | ⟨_, _, _ | _ | _ | _⟩ | _ | _ | _ | _ | _ | _ | _ | _ | _) | ⟨_ | _ | _ | _ | _, _⟩ <;> rfl

theorem section_of_isBody {x : Item} (isBody : x.isBody = true) : x.section? = some .code := by
  rcases x with _ | ⟨_ | _ | _ | _ | _, _⟩
  case expr.code => rfl
  all_goals cases isBody

end Item

theorem Binary.functionCount_eq (xs : List Item) :
    functionCount xs = xs.countP Item.isFunctionImport + xs.countP Item.isBody := by
  induction xs with
  | nil => rfl
  | cons x xs ih =>
    rw [functionCount_cons, ih, x.functions_eq, List.countP_cons, List.countP_cons]
    omega

namespace Validator

variable {v v' : Validator}

theorem nameless : consumer.Nameless where
  entry := nameless_entry
  site x := (nameless_site x).bind fun _ => .pure true
  instruction := nameless_instruction
  exprEnd := nameless_exprEnd

/-! ## What the validator counts -/

theorem bodiesSeen_after (v : Validator) (x : Item) : (v.after x).bodiesSeen = v.bodiesSeen + if x.isBody then 1 else 0 := by
  rcases x with _ | ⟨_ | _ | _ | _ | _, _⟩ <;> rfl

theorem importedFunctions_after (v : Validator) (x : Item) :
    (v.after x).space.importedFunctions = v.space.importedFunctions + if x.isFunctionImport then 1 else 0 := by
  have next := v.nextBody_after x
  rw [x.functions_eq, nextBody, bodiesSeen_after, nextBody] at next
  omega

/-- Of the items that it has accepted, the validator has counted the bodies and the imported functions. -/
theorem counts_of_items {xs : List Item} (accepted : consumer.items xs v = .ok () v') :
    v'.space.importedFunctions = v.space.importedFunctions + xs.countP Item.isFunctionImport ∧
      v'.bodiesSeen = v.bodiesSeen + xs.countP Item.isBody := by
  induction xs generalizing v with
  | nil =>
    cases accepted
    exact ⟨rfl, rfl⟩
  | cons x xs ih =>
    obtain ⟨u, one, rest⟩ := Consumer.items_cons_ok_iff.mp accepted
    obtain ⟨-, -, rfl⟩ := item_ok_iff.mp one
    obtain ⟨imports, bodies⟩ := ih rest
    rw [importedFunctions_after] at imports
    rw [bodiesSeen_after] at bodies
    rw [imports, bodies, List.countP_cons, List.countP_cons]
    omega

/-! ## What the producer counts -/

/-- The validator has accepted the items, and the producer has counted the functions among them. -/
structure Accepted (xs : List Item) (s : Session Validator) : Prop where
  items : consumer.items xs {} = .ok () s.consumer
  count : s.nextFunction = functionCount xs

theorem Accepted.append {xs ys : List Item} {s s' : Session Validator} (before : Accepted xs s)
    (items : consumer.items ys s.consumer = .ok () s'.consumer)
    (count : s'.nextFunction = s.nextFunction + functionCount ys) : Accepted (xs ++ ys) s' where
  items := by rw [Consumer.items_append, Outcome.bind_of_ok before.items, items]
  count := by rw [count, before.count, functionCount_append]

variable {bytes : List UInt8}

/-- Up to a section of rank `last`, only items of sections of no higher rank are told. -/
theorem accepted_of_reached {last : Nat} {s : Session Validator} (reached : Reached consumer bytes {} last s) :
    ∃ xs, Accepted xs s ∧ ∀ x ∈ xs, ∀ place, x.section? = some place → place.rank ≤ last := by
  induction reached with
  | @first version c t decoded accepted =>
    refine ⟨[.entry (.header version)], ⟨Consumer.items_cons_ok_iff.mpr ⟨t, accepted, rfl⟩, rfl⟩, ?_⟩
    intro x member place here
    obtain rfl := List.mem_singleton.mp member
    cases here
    exact Nat.le_refl 0
  | @next last rank c d content t n f s before decoded done ih =>
    obtain ⟨xs, told, low⟩ := ih
    rcases framed_cases consumer last f with custom | ⟨place, found, order⟩ | ⟨e, -, throws⟩
    · rw [custom] at done
      obtain ⟨_, s', ran, closed⟩ := Outcome.bind_ok_iff.mp done
      obtain ⟨rfl, rfl⟩ := filled_ok closed
      obtain ⟨_, ⟨p, rfl, none⟩, items, count⟩ := pieces_of_ok EmitsPieces.custom ran
      refine ⟨_, told.append items count, fun x member place here => ?_⟩
      rcases List.mem_append.mp member with member | member
      · exact low x member place here
      · rw [List.flatMap_singleton] at member
        rw [Tree.Piece.section_of_mem_items member, none] at here
        cases here
    · rw [framed_known found order] at done
      obtain ⟨_, s', ran, closed⟩ := Outcome.bind_ok_iff.mp done
      obtain ⟨rfl, rfl⟩ := filled_ok closed
      obtain ⟨ps, ⟨inside, -⟩, items, count⟩ := pieces_of_ok (EmitsPieces.content place) ran
      refine ⟨_, told.append items count, fun x member other here => ?_⟩
      rcases List.mem_append.mp member with member | member
      · exact (low x member other here).trans (Nat.le_of_lt order)
      · obtain ⟨p, piece, member⟩ := List.mem_flatMap.mp member
        rw [Tree.Piece.section_of_mem_items member, inside p piece] at here
        cases here
        exact Nat.le_refl _
    · rw [throws] at done
      cases done

/-- In the code section, the functions that were counted before it are the imported ones. -/
theorem accepted_of_inCode {imported left k : Nat} {s : Session Validator}
    (inside : InCode consumer bytes {} imported left k s) :
    ∃ xs, Accepted xs s ∧ xs.countP Item.isFunctionImport = imported ∧ xs.countP Item.isBody = k := by
  induction inside with
  | @first last count c d content inside t f before decoded code order counted =>
    obtain ⟨xs, told, low⟩ := accepted_of_reached before
    have bodies : xs.countP Item.isBody = 0 := by
      refine List.countP_eq_zero.mpr fun x member isBody => ?_
      exact Nat.not_le_of_lt order (low x member _ (Item.section_of_isBody isBody))
    have imports : imported = functionCount xs := told.count
    rw [functionCount_eq, bodies] at imports
    exact ⟨xs, ⟨told.items, told.count⟩, imports.symm, bodies⟩
  | next before done ih =>
    obtain ⟨xs, told, imports, bodies⟩ := ih
    obtain ⟨count, locals, is, items⟩ := body_ok done
    refine ⟨_, told.append items count, ?_, ?_⟩
    · rw [List.countP_append, imports]
      rfl
    · rw [List.countP_append, bodies]
      rfl

end Validator

theorem validate_of_deliver {bytes : List UInt8} {e : DecodeError}
    (failed : (deliver Validator.consumer bytes {}).1 = .error e) : validate bytes = .error e := by
  unfold validate
  cases delivered : deliver Validator.consumer bytes {} with
  | mk r v =>
    rw [delivered] at failed
    obtain rfl : r = .error e := failed
    rfl

/-- Whenever the body at position `k` of the code section is come to, the producer and the validator give its function
the same index, which is `k` more than the number of imported functions. An objection that is raised in that body is the
outcome of validation, with the function of that index put before it; it did not name a function before. An objection
that is the outcome of validation names no function unless it was raised in a body. To name the function changes the
message of the objection and nothing else. -/
theorem validate_names_function (bytes : List UInt8) :
    (∀ imported k s, AtBody Validator.consumer bytes {} imported k s →
      s.nextFunction = imported + k ∧ s.consumer.nextBody = imported + k ∧
      s.consumer.space.importedFunctions = imported ∧ s.consumer.bodiesSeen = k ∧
      ∃ xs, Validator.consumer.items xs {} = .ok () s.consumer ∧ xs.countP Item.isFunctionImport = imported ∧
        xs.countP Item.isBody = k) ∧
    (∀ imported k v, ObjectsInBody Validator.consumer bytes {} imported k v →
      v.Nameless ∧ validate bytes = .error (.violation (.inFunction (imported + k) v))) ∧
    ∀ w, validate bytes = .error (.violation w) → w.Nameless ∨
      ∃ imported k v, ObjectsInBody Validator.consumer bytes {} imported k v ∧ w = .inFunction (imported + k) v ∧
        w.message = "function " ++ toString (imported + k) ++ ": " ++ v.message ∧
        w.kind = v.kind ∧ w.cause = v.cause ∧ w.category = v.category := by
  refine ⟨fun imported k s reached => ?_, fun imported k v objects => ?_, fun w rejected => ?_⟩
  · obtain ⟨left, inside⟩ := reached
    obtain ⟨xs, told, imports, bodies⟩ := Validator.accepted_of_inCode inside
    obtain ⟨known, seen⟩ := Validator.counts_of_items told.items
    rw [imports] at known
    rw [bodies] at seen
    have known : s.consumer.space.importedFunctions = imported := known.trans (Nat.zero_add _)
    have seen : s.consumer.bodiesSeen = k := seen.trans (Nat.zero_add _)
    exact ⟨inside.nextFunction, by rw [Validator.nextBody, known, seen], known, seen, xs, told.items, imports, bodies⟩
  · have outcome := validate_of_deliver (deliver_of_objectsInBody objects)
    obtain ⟨s, s', -, failed⟩ := objects
    exact ⟨nameless_framedBody Validator.nameless _ _ _ failed, outcome⟩
  · have delivered := validate_error rejected
    rcases nameless_or_objectsInBody Validator.nameless delivered with nameless | ⟨imported, k, v, objects, rfl⟩
    · exact .inl nameless
    · exact .inr ⟨imported, k, v, objects, rfl, rfl, rfl, rfl, rfl⟩

/-- A module that imports a function and a memory and has two functions of its own; the second drops an operand where
there is none. -/
def secondDrops : List UInt8 :=
  [0x00, 0x61, 0x73, 0x6d, 0x01, 0x00, 0x00, 0x00,
    0x01, 0x04, 0x01, 0x60, 0x00, 0x00,
    0x02, 0x0a, 0x02, 0x00, 0x00, 0x00, 0x00, 0x00, 0x00, 0x02, 0x00, 0x01,
    0x03, 0x03, 0x02, 0x00, 0x00,
    0x0a, 0x08, 0x02, 0x02, 0x00, 0x0b, 0x03, 0x00, 0x1a, 0x0b]

theorem validate_names_function_secondDrops :
    validate secondDrops = .error (.violation (.inFunction 2 .underflow)) ∧
      ∃ imported k s, AtBody Validator.consumer secondDrops {} imported k s ∧ s.nextFunction = 2 ∧
        s.consumer.nextBody = 2 ∧ ObjectsInBody Validator.consumer secondDrops {} imported k .underflow := by
  have rejected : validate secondDrops = .error (.violation (.inFunction 2 .underflow)) := by cbv
  obtain ⟨indices, -, outcome⟩ := validate_names_function secondDrops
  refine ⟨rejected, ?_⟩
  rcases outcome _ rejected with nameless | ⟨imported, k, v, objects, same, -⟩
  · exact nameless.elim
  · obtain ⟨index, rfl⟩ := Violation.inFunction.inj same
    obtain ⟨s, s', reached, failed⟩ := objects
    obtain ⟨next, body, -⟩ := indices imported k s reached
    exact ⟨imported, k, s, reached, next.trans index.symm, body.trans index.symm, s, s', reached, failed⟩

end Wasm
