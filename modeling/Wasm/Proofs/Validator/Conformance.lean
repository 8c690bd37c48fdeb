import Wasm.Validate
import Wasm.Proofs.Binary.Following
import Wasm.Proofs.Binary.Independence
import Wasm.Proofs.Validator.Objections

/-! # The order that the validator asks for

A producer and the validator each keep account of how far a module has come: ranks of sections on one side and the last
section on the other, what is known of the last segment on both, a count of open blocks and a stack of frames. The two
accounts agree at every step, so the validator objects to nothing but the contents of the modules that are decoded.
-/

namespace Wasm

open Binary Outcome

/-! ## Sections -/

theorem Binary.Place.next_le_pass {p : Place} {x : Item} (admits : p.Admits x) : p.next ≤ (p.pass x).next := by
  have order := admits.1
  show p.next ≤ (x.section?.map Section.onward).getD p.next
  cases same : x.section? with
  | none => exact Nat.le_refl _
  | some s =>
    rw [same] at order
    exact order.trans s.rank_le_onward

namespace Validator

variable {v : Validator}

/-! ## Agreement of the accounts -/

/-- The validator has come as far as a place in what is told. -/
structure Fits (v : Validator) (p : Place) : Prop where
  position : p.next = v.position.onward
  start : v.startSeen = true → Section.start.rank < p.next
  dataCount : v.space.dataCount.isSome → Section.dataCount.rank < p.next
  offset : p.offset = v.lastElement.any (·.offsetPending)
  items : p.items = v.lastElement.any (·.expressions)
  dataOffset : p.dataOffset = v.dataOffsetPending

theorem fits_start : Fits {} {} where
  position := rfl
  start seen := by cases seen
  dataCount counted := by cases counted
  offset := rfl
  items := rfl
  dataOffset := rfl

namespace Fits

variable {p : Place}

/-- The expression being checked makes no difference. -/
theorem beside (fits : Fits v p) (refs : FuncRefs) (expr : Option OpenExpr) :
    Fits { v with refs := refs, expr := expr } p :=
  ⟨fits.position, fits.start, fits.dataCount, fits.offset, fits.items, fits.dataOffset⟩

theorem follows (fits : Fits v p) {x : Item} (admits : p.Admits x) : v.Follows x.section? := by
  have order := fits.position ▸ admits.1
  constructor
  · intro ended
    rw [ended] at order
    exact Nat.not_succ_le_self _ (order.trans (Section.rank_le_finish _))
  · intro s same
    rw [Option.mem_def.mp same] at order
    exact v.position.rank_le_onward.trans order

/-- Behind an item both accounts go on. An element segment is told with a tag that the validator has checked. -/
theorem after (fits : Fits v p) {x : Item} (admits : p.Admits x)
    (tagged : ∀ s, x = .entry (.element s) → (RefType.ofTag? s.tag).isSome) : Fits (v.after x) (p.pass x) := by
  have later := Place.next_le_pass admits
  have segment {s : ElementSegment} (here : x = .entry (.element s)) :
      ∃ type, (v.after x).lastElement = some ⟨type, s.mode.isActive, s.init = .expressions⟩ := by
    obtain ⟨type, found⟩ := Option.isSome_iff_exists.mp (tagged s here)
    refine ⟨type, ?_⟩
    rw [here]
    show (RefType.ofTag? s.tag).map _ = _
    rw [found]
    rfl
  constructor
  case position =>
    show (x.section?.map Section.onward).getD p.next = (x.section?.getD v.position).onward
    cases x.section? with
    | none => exact fits.position
    | some s => rfl
  case start =>
    intro seen
    rcases x with (_ | _ | _ | _ | _ | _ | _ | _ | func | _ | _ | _ | _) | ⟨_ | _ | _ | _ | _, _⟩
    case entry.start => exact Nat.lt_succ_self _
    all_goals exact (fits.start seen).trans_le later
  case dataCount =>
    intro counted
    by_cases here : x.section? = some .dataCount
    · show Section.dataCount.rank < (x.section?.map Section.onward).getD p.next
      rw [here]
      exact Nat.lt_succ_self _
    · have kept : (v.after x).space.dataCount = v.space.dataCount := v.space.add_dataCount here
      rw [kept] at counted
      exact (fits.dataCount counted).trans_le later
  case offset =>
    rcases x with (_ | _ | _ | _ | _ | _ | _ | _ | _ | s | _ | _ | _) | ⟨_ | _ | _ | _ | _, _⟩
    case entry.element =>
      obtain ⟨type, last⟩ := segment rfl
      rw [last]
      rfl
    case expr.elementOffset =>
      show false = Option.any _ (v.lastElement.map _)
      cases v.lastElement <;> rfl
    all_goals exact fits.offset
  case items =>
    rcases x with (_ | _ | _ | _ | _ | _ | _ | _ | _ | s | _ | _ | _) | ⟨_ | _ | _ | _ | _, _⟩
    case entry.element =>
      obtain ⟨type, last⟩ := segment rfl
      rw [last]
      rfl
    case expr.elementOffset =>
      refine fits.items.trans ?_
      show _ = Option.any _ (v.lastElement.map _)
      cases v.lastElement <;> rfl
    all_goals exact fits.items
  case dataOffset =>
    rcases x with (_ | _ | _ | _ | _ | _ | _ | _ | _ | _ | _ | s | _) | ⟨_ | _ | _ | _ | _, _⟩
    case entry.data | expr.dataOffset => rfl
    all_goals exact fits.dataOffset

end Fits

/-! ## Items and notices -/

variable {p : Place}

/-- What is told where it may come is objected to for its contents only. -/
theorem fair_entry (fits : Fits v p) {e : Entry} (admits : p.Admits (.entry e)) : Fair (entry e) v := by
  have follows := fits.follows admits
  cases e with
  | header | custom => exact .of_ok (a := ()) (entry_ok_iff.mpr ⟨follows, trivial, rfl⟩)
  | start func =>
    have unseen : ¬v.startSeen = true := fun seen => Nat.not_le_of_lt (fits.start seen) admits.1
    exact .get (.passed unseen ((sectioned_start func).fair follows))
  | dataCount count =>
    have uncounted : v.space.dataCount = none :=
      Option.not_isSome_iff_eq_none.mp fun counted => Nat.not_le_of_lt (fits.dataCount counted) admits.1
    exact .of_ok (a := ()) (entry_ok_iff.mpr ⟨follows, uncounted, rfl⟩)
  | type | imported | function | table | memory | exported | element | data | finish =>
    exact (sectioned_entry rfl (by decide)).fair follows

theorem fair_site (fits : Fits v p) {x : Site} {body : List Instruction} (admits : p.Admits (.expr x body)) :
    Fair (site x) v := by
  have follows := fits.follows admits
  have known {q : OpenElement → Bool} (any : v.lastElement.any q = true) : ∃ e ∈ v.lastElement, q e = true := by
    cases last : v.lastElement with
    | none => rw [last] at any; cases any
    | some e => rw [last] at any; exact ⟨e, rfl, any⟩
  cases x with
  | global d => exact (sectioned_global d).fair follows
  | elementOffset =>
    have taken : takeElementOffset { v with position := .element } = .ok () _ :=
      takeElementOffset_ok_iff.mpr ⟨known (fits.offset ▸ admits.2), rfl⟩
    exact .advance follows ((Fair.of_ok taken).bind fun _ _ _ => .of_ok rfl)
  | elementItem =>
    obtain ⟨e, last, listed⟩ := known (fits.items ▸ admits.2)
    have found : itemType { v with position := .element } = .ok e.type _ :=
      itemType_ok_iff.mpr ⟨⟨e, last, listed, rfl⟩, rfl⟩
    exact .advance follows ((Fair.of_ok found).bind fun _ _ _ => .of_ok rfl)
  | code decls => exact (sectioned_code decls).fair follows
  | dataOffset =>
    have taken : takeDataOffset { v with position := .data } = .ok () _ :=
      takeDataOffset_ok_iff.mpr ⟨fits.dataOffset ▸ admits.2, rfl⟩
    exact .advance follows ((Fair.of_ok taken).bind fun _ _ _ => .of_ok rfl)

theorem cut_eq (x : Site) (body : List Instruction) :
    consumer.cut x body = (site x >>= fun _ => consumer.feedOpen body) := by
  show ((site x >>= fun _ => pure true) >>= fun takes => if takes then consumer.feedOpen body else pure ()) = _
  rw [bind_assoc]
  simp only [pure_bind, if_true]

theorem item_expr_eq (x : Site) (body : List Instruction) :
    consumer.item (.expr x body) = (consumer.cut x body >>= fun _ => consumer.exprEnd) := by
  rw [item_expr, cut_eq, Consumer.feed_eq, bind_assoc]

/-- The part of an expression that can be decoded, told where it may come. -/
theorem cut_fits (fits : Fits v p) {x : Site} {body : List Instruction} {whole : Bool}
    (admits : p.Admits (.expr x body)) (decoded : Decoded 0 body whole) :
    Fair (consumer.cut x body) v ∧ ∀ v', consumer.cut x body v = .ok () v' →
      Fits v' (p.pass (.expr x body)) ∧ (whole = true → ∃ e, v'.expr = some e ∧ e.Ready none) := by
  rw [cut_eq]
  refine ⟨(fair_site fits admits).bind fun _ v' begun => ?_, fun v' done => ?_⟩
  · obtain ⟨e, rfl, ready⟩ := begun_of_site begun body
    exact (feedOpen_decoded decoded rfl ready).1
  · obtain ⟨_, t, begun, done⟩ := bind_ok_iff.mp done
    obtain ⟨e, rfl, ready⟩ := begun_of_site begun body
    obtain ⟨refs, e', rfl, closed⟩ := (feedOpen_decoded decoded rfl ready).2 v' done
    have behind : Fits (v.after (.expr x body)) (p.pass (.expr x body)) := fits.after admits fun _ entry => by cases entry
    exact ⟨behind.beside refs (some e'), fun isWhole => ⟨e', rfl, closed isWhole⟩⟩

theorem item_fits (fits : Fits v p) {x : Item} (admits : p.Admits x)
    (whole : ∀ site body, x = .expr site body → Decoded 0 body true) :
    Fair (consumer.item x) v ∧ ∀ v', consumer.item x v = .ok () v' → Fits v' (p.pass x) := by
  cases x with
  | entry e =>
    refine ⟨fair_entry fits admits, fun v' done => ?_⟩
    obtain ⟨-, judged, rfl⟩ := item_ok_iff.mp done
    refine fits.after admits ?_
    rintro s ⟨⟩
    obtain ⟨type, found, -⟩ := judged
    exact Option.isSome_of_eq_some found
  | expr x body =>
    obtain ⟨fair, behind⟩ := cut_fits fits admits (whole x body rfl)
    rw [item_expr_eq]
    refine ⟨fair.bind fun _ v' cut => ?_, fun v' done => ?_⟩
    · obtain ⟨e, opened, ready⟩ := (behind v' cut).2 rfl
      exact .of_ok (exprEnd_ready opened ready)
    · obtain ⟨_, t, cut, done⟩ := bind_ok_iff.mp done
      obtain ⟨fits, closed⟩ := behind t cut
      obtain ⟨e, opened, ready⟩ := closed rfl
      rw [exprEnd_ready opened ready] at done
      cases done
      exact fits.beside t.refs none

/-- Naming functions makes no objection another. -/
theorem ordinary_objection (funcs : List Nat) {w : Violation} (ordinary : w.Ordinary) :
    ∃ w' : Violation, w'.Ordinary ∧ objection funcs w = .violation w' := by
  induction funcs with
  | nil => exact ⟨w, ordinary, rfl⟩
  | cons func funcs ih =>
    obtain ⟨w', ordinary, same⟩ := ih
    refine ⟨.inFunction func w', ordinary, ?_⟩
    rw [objection, List.foldr_cons]
    exact congrArg (DecodeError.inFunction func) same

/-- A step that is fair, with functions named in its objections. -/
theorem adaptExcept_fits {m : Step Validator Unit} (funcs : List Nat) {q : Place}
    (fits : Fair m v ∧ ∀ v', m v = .ok () v' → Fits v' q) :
    (∀ e v', EStateM.adaptExcept (objection funcs) m v = .error e v' → ∃ w : Violation, w.Ordinary ∧ e = .violation w) ∧
      ∀ v', EStateM.adaptExcept (objection funcs) m v = .ok () v' → Fits v' q := by
  unfold EStateM.adaptExcept
  refine ⟨fun e v' failed => ?_, fun v' done => ?_⟩
  · cases ran : m v with
    | ok u t => rw [ran] at failed; cases failed
    | error w t =>
      rw [ran] at failed
      cases failed
      exact ordinary_objection funcs (fits.1 w v' ran)
  · cases ran : m v with
    | ok u t =>
      rw [ran] at done
      cases done
      exact fits.2 v' ran
    | error w t => rw [ran] at done; cases done

/-- A notice that comes where it may is objected to for its contents only, and otherwise both accounts go on. -/
theorem hear_fits (fits : Fits v p) {x : Notice} (allowed : p.Allows x) :
    (∀ e v', consumer.hear x v = .error e v' → ∃ w : Violation, w.Ordinary ∧ e = .violation w) ∧
      ∀ v', consumer.hear x v = .ok () v' → Fits v' (p.after x) := by
  cases x with
  | item funcs x => exact adaptExcept_fits funcs (item_fits fits allowed.2.1 allowed.2.2)
  | cut funcs x body =>
    obtain ⟨fair, behind⟩ := cut_fits fits allowed.2.1 allowed.2.2
    exact adaptExcept_fits funcs ⟨fair, fun v' done => (behind v' done).1⟩
  | frame f =>
    refine ⟨fun e v' failed => ?_, fun v' done => ?_⟩
    · cases failed
    · cases done
      exact fits

theorem ordinary_of_hearAll (fits : Fits v p) {told : List Notice} (orderly : p.Orderly told) {e : DecodeError}
    {v' : Validator} (failed : consumer.hearAll told v = .error e v') : ∃ w : Violation, w.Ordinary ∧ e = .violation w := by
  induction told generalizing v p with
  | nil => cases failed
  | cons x told ih =>
    cases heard : consumer.hear x v with
    | error e' t =>
      rw [Consumer.hearAll, bind_of_error heard] at failed
      cases failed
      exact (hear_fits fits orderly.1).1 e v' heard
    | ok u t =>
      rw [Consumer.hearAll, bind_of_ok heard] at failed
      exact ih ((hear_fits fits orderly.1).2 t heard) orderly.2 failed

/-- An objection to bytes is an ordinary one. -/
theorem ordinary_of_deliver {bytes : List UInt8} {w : Violation}
    (rejected : (deliver consumer bytes {}).1 = .error (.violation w)) : w.Ordinary := by
  obtain ⟨told, r, tells, orderly, fault, -⟩ := Proceeds.produce (.ofBytes bytes)
  rw [deliver_of_tells tells] at rejected
  cases heard : consumer.hearAll told {} with
  | error e v' =>
    obtain ⟨w', ordinary, rfl⟩ := ordinary_of_hearAll fits_start orderly heard
    rw [heard] at rejected
    cases rejected
    exact ordinary
  | ok u v' =>
    rw [heard] at rejected
    cases r with
    | ok done => cases rejected
    | error e =>
      cases rejected
      exact (fault _ rfl).elim

end Validator

/-- The validator and the tree behind it fail where the validator fails alone. -/
theorem validateTree_error {bytes : List UInt8} {e : DecodeError} (failed : validateTree bytes = .error e) :
    (deliver Validator.consumer bytes {}).1 = .error e := by
  obtain ⟨l, same⟩ := Tree.Builder.obliging.deliver_follow (C := Validator.consumer) bytes {} { state := {} }
  unfold validateTree Consumer.withTree at failed
  rw [same] at failed
  cases result : (deliver Validator.consumer bytes {}).1 with
  | ok u => rw [result] at failed; cases failed
  | error e' => rw [result] at failed; cases failed; rfl

theorem validate_error {bytes : List UInt8} {e : DecodeError} (failed : validate bytes = .error e) :
    (deliver Validator.consumer bytes {}).1 = .error e := by
  unfold validate at failed
  split at failed
  · cases failed
  · rename_i same
    cases failed
    rw [same]

namespace Validator

/-- Streams of events that no producer gives are objected to for their order. A `return` from nowhere is left out: bodies
have results to return, and constant expressions admit no `return`. -/
theorem objects_to_disorder {kind : ViolationKind} (disorder : kind ∈ ViolationKind.disorders)
    (other : kind ≠ .returnOutsideFunction) : ∃ calls e w t, consumer.ObjectsTo {} calls e w t ∧ w.kind = kind := by
  have typed : consumer.Took {} [.entry (.type ⟨[], []⟩)] _ := .event .start rfl
  have declared : consumer.Took {} [.entry (.type ⟨[], []⟩), .entry (.function 0)] _ := .event typed rfl
  fin_cases disorder
  · exact ⟨[], .site .elementOffset, .noElementForOffset, _, ⟨_, .start, rfl⟩, rfl⟩
  · have started : consumer.Took {} [.entry (.type ⟨[], []⟩), .entry (.function 0), .entry (.start 0)] _ :=
      .event declared rfl
    exact ⟨_, .entry (.start 0), .multipleStarts, _, ⟨_, started, rfl⟩, rfl⟩
  · have begun : consumer.Took {} [.site (.global ⟨0x7f, 0x00⟩)] _ := .event .start rfl
    exact ⟨_, .exprEnd, .unclosed 1, _, ⟨_, begun, rfl⟩, rfl⟩
  · exact ⟨[], .instruction (.plain .nop), .noOpenBlock, _, ⟨_, .start, rfl⟩, rfl⟩
  · exact absurd rfl other
  · have begun : consumer.Took {} [.entry (.type ⟨[], []⟩), .entry (.function 0), .site (.code [])] _ :=
      .event declared rfl
    exact ⟨_, .instruction (.plain (.vector 0x0c)), .illegalVector 0x0c, _, ⟨_, begun, rfl⟩, rfl⟩

end Validator

/-- Validation of bytes, for their index spaces or for their tree, objects to the contents of a module and never to the
order of what it is told, although it would object to another order. -/
theorem validate_never_reports_disorder (bytes : List UInt8) :
    (∀ v, validate bytes = .error (.violation v) → v.kind ∉ ViolationKind.disorders) ∧
    (∀ v, validateTree bytes = .error (.violation v) → v.kind ∉ ViolationKind.disorders) ∧
    ∀ kind ∈ ViolationKind.disorders, kind ≠ .returnOutsideFunction →
      ∃ calls e w t, Validator.consumer.ObjectsTo {} calls e w t ∧ w.kind = kind := by
  have absent {v : Violation} (ordinary : v.Ordinary) : v.kind ∉ ViolationKind.disorders := by
    simpa [Violation.Ordinary, ViolationKind.isDisorder] using ordinary
  exact ⟨fun v failed => absent (Validator.ordinary_of_deliver (validate_error failed)),
    fun v failed => absent (Validator.ordinary_of_deliver (validateTree_error failed)),
    fun _ => Validator.objects_to_disorder⟩

end Wasm
