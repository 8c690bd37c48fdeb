import Wasm.Proofs.Validator.Effects

/-! # The order of accepted events

Whatever events the validator is given, and whether or not it goes on after an objection, those that it accepts come in
the order of sections. The parts of its state that guard the order say what was accepted: a rejected segment neither
awaits an offset nor takes away the offset of the segment before it.
-/

namespace Wasm

open Outcome

namespace Event

/-- The section that an event belongs to; custom sections and the contents of expressions belong to none. -/
def section? : Event → Option Section
  | .entry e => (Item.entry e).section?
  | .site x => (Item.expr x []).section?
  | .instruction _ | .exprEnd => none

def isStart : Event → Bool
  | .entry (.start _) => true
  | _ => false

def isDataCount : Event → Bool
  | .entry (.dataCount _) => true
  | _ => false

def isFinish : Event → Bool
  | .entry .finish => true
  | _ => false

def isElement : Event → Bool
  | .entry (.element _) => true
  | _ => false

def isElementOffset : Event → Bool
  | .site .elementOffset => true
  | _ => false

def isData : Event → Bool
  | .entry (.data _) => true
  | _ => false

def isDataOffset : Event → Bool
  | .site .dataOffset => true
  | _ => false

/-- An element segment that needs an offset. -/
def isActiveElement : Event → Bool
  | .entry (.element s) => s.mode.isActive
  | _ => false

/-- An element segment whose items are expressions. -/
def listsExpressions : Event → Bool
  | .entry (.element s) => s.init = .expressions
  | _ => false

/-- A data segment that needs an offset. -/
def isActiveData : Event → Bool
  | .entry (.data s) => s.mode.isActive
  | _ => false

/-- The last event of a kind. -/
def latest (kind : Event → Bool) (told : List Event) : Option Event := (told.filter kind).getLast?

theorem latest_concat (kind : Event → Bool) (told : List Event) (e : Event) :
    latest kind (told ++ [e]) = if kind e then some e else latest kind told := by
  unfold latest
  rw [List.filter_append]
  cases this : kind e <;> simp [this]

/-- An element segment that is still to get its offset was the last to come. -/
def awaitsElementOffset (told : List Event) : Bool :=
  (latest (fun e => e.isElement || e.isElementOffset) told).any isActiveElement

/-- The last element segment is one whose items are expressions. -/
def awaitsItems (told : List Event) : Bool := (latest isElement told).any listsExpressions

/-- A data segment that is still to get its offset was the last to come. -/
def awaitsDataOffset (told : List Event) : Bool :=
  (latest (fun e => e.isData || e.isDataOffset) told).any isActiveData

theorem awaitsElementOffset_concat (told : List Event) (e : Event) :
    awaitsElementOffset (told ++ [e]) =
      if e.isElement || e.isElementOffset then e.isActiveElement else awaitsElementOffset told := by
  rw [awaitsElementOffset, latest_concat]
  split <;> rfl

theorem awaitsItems_concat (told : List Event) (e : Event) :
    awaitsItems (told ++ [e]) = if e.isElement then e.listsExpressions else awaitsItems told := by
  rw [awaitsItems, latest_concat]
  split <;> rfl

theorem awaitsDataOffset_concat (told : List Event) (e : Event) :
    awaitsDataOffset (told ++ [e]) =
      if e.isData || e.isDataOffset then e.isActiveData else awaitsDataOffset told := by
  rw [awaitsDataOffset, latest_concat]
  split <;> rfl

end Event

open Event

namespace Validator

variable {v v' : Validator} {told : List Event}

/-- What the state has to do with the events that were accepted. -/
structure Tracks (v : Validator) (told : List Event) : Prop where
  ordered : (told.filterMap section?).Pairwise fun a b => a.rank ≤ b.rank
  reached : ∀ s ∈ told.filterMap section?, s.rank ≤ v.position.rank
  start : told.countP isStart ≤ v.startSeen.toNat
  dataCount : told.countP isDataCount ≤ v.space.dataCount.isSome.toNat
  finish : told.countP isFinish ≤ v.isEnded.toNat
  elementOffset : v.lastElement.any (·.offsetPending) = awaitsElementOffset told
  elementItem : v.lastElement.any (·.expressions) = awaitsItems told
  dataOffset : v.dataOffsetPending = awaitsDataOffset told

theorem isEnded_of_rank (ended : v.isEnded = true) (later : v.position.rank ≤ v'.position.rank) :
    v'.isEnded = true := by
  unfold isEnded at *
  rw [of_decide_eq_true ended] at later
  cases position : v'.position <;> rw [position] at later
  case finish => rfl
  all_goals exact absurd later (by decide)

theorem Tracks.of_spares (tracks : Tracks v told) (spares : Spares v v') : Tracks v' told where
  ordered := tracks.ordered
  reached s member := (tracks.reached s member).trans spares.position
  start := tracks.start.trans (Bool.toNat_le_toNat spares.start)
  dataCount := spares.space ▸ tracks.dataCount
  finish := tracks.finish.trans (Bool.toNat_le_toNat (isEnded_of_rank · spares.position))
  elementOffset := spares.lastElement ▸ tracks.elementOffset
  elementItem := spares.lastElement ▸ tracks.elementItem
  dataOffset := spares.dataOffset ▸ tracks.dataOffset

/-- An event of a section that may come next is in order after those accepted before. -/
theorem order_concat {e : Event} (tracks : Tracks v told) (follows : v.Follows e.section?) :
    ((told ++ [e]).filterMap section?).Pairwise (fun a b => a.rank ≤ b.rank) ∧
      ∀ s ∈ (told ++ [e]).filterMap section?, s.rank ≤ (e.section?.getD v.position).rank := by
  rw [List.filterMap_append]
  cases next : e.section? with
  | none =>
    simp only [List.filterMap_cons, next, List.filterMap_nil, List.append_nil]
    exact ⟨tracks.ordered, tracks.reached⟩
  | some s =>
    have later := follows.2 s next
    simp only [List.filterMap_cons, next, List.filterMap_nil, Option.getD_some]
    constructor
    · rw [List.pairwise_append]
      refine ⟨tracks.ordered, List.pairwise_singleton _ _, fun a member b here => ?_⟩
      rw [List.mem_singleton.mp here]
      exact (tracks.reached a member).trans later
    · intro a member
      rcases List.mem_append.mp member with member | here
      · exact (tracks.reached a member).trans later
      · rw [List.mem_singleton.mp here]

/-- A kind of event of which one is accepted at most, as the state remembers. -/
theorem count_concat {kind : Event → Bool} {seen seen' : Bool} {e : Event} (counted : told.countP kind ≤ seen.toNat)
    (keeps : seen = true → seen' = true) (once : kind e = true → seen = false ∧ seen' = true) :
    (told ++ [e]).countP kind ≤ seen'.toNat := by
  rw [List.countP_append, List.countP_singleton]
  split
  · rename_i here
    obtain ⟨rfl, rfl⟩ := once here
    exact Nat.add_le_add_right counted 1
  · exact counted.trans (Bool.toNat_le_toNat keeps)

theorem add_dataCount_isSome {C : IndexSpace} {x : Item} (known : C.dataCount.isSome = true) :
    (C.add x).dataCount.isSome = true := by
  by_cases here : x.section? = some .dataCount
  · rcases x with e | ⟨site, body⟩
    · cases e <;> cases here
      rfl
    · cases site <;> cases here
  · rw [C.add_dataCount here]
    exact known

theorem Tracks.of_entry {e : Entry} (tracks : Tracks v told) (follows : v.Follows (Item.entry e).section?)
    (judges : v.Judges (.entry e)) : Tracks (v.after (.entry e)) (told ++ [.entry e]) where
  ordered := (order_concat (e := .entry e) tracks follows).1
  reached := (order_concat (e := .entry e) tracks follows).2
  start := by
    apply count_concat tracks.start
    · intro seen
      cases e with
      | start => rfl
      | _ => exact seen
    · intro kind
      cases e <;> cases kind
      exact ⟨judges.1, rfl⟩
  dataCount := by
    apply count_concat tracks.dataCount
    · exact add_dataCount_isSome
    · intro kind
      cases e <;> cases kind
      exact ⟨congrArg Option.isSome judges, rfl⟩
  finish := by
    apply count_concat tracks.finish
    · intro ended
      exact absurd (of_decide_eq_true ended) follows.1
    · intro kind
      cases e <;> cases kind
      exact ⟨decide_eq_false follows.1, rfl⟩
  elementOffset := by
    rw [awaitsElementOffset_concat, ← tracks.elementOffset]
    cases e with
    | element s =>
      obtain ⟨type, tagged, -, -⟩ := judges
      simp [after, receive, moveTo, tagged, isElement, isActiveElement]
    | _ => rfl
  elementItem := by
    rw [awaitsItems_concat, ← tracks.elementItem]
    cases e with
    | element s =>
      obtain ⟨type, tagged, -, -⟩ := judges
      simp [after, receive, moveTo, tagged, isElement, listsExpressions]
    | _ => rfl
  dataOffset := by
    rw [awaitsDataOffset_concat, ← tracks.dataOffset]
    cases e <;> rfl

theorem Tracks.of_site {x : Site} {expr : Option OpenExpr} (tracks : Tracks v told)
    (follows : v.Follows (Item.expr x []).section?) :
    Tracks { v.after (.expr x []) with expr := expr } (told ++ [.site x]) where
  ordered := (order_concat (e := .site x) tracks follows).1
  reached := (order_concat (e := .site x) tracks follows).2
  start := by
    apply count_concat tracks.start
    · intro seen
      cases x <;> exact seen
    · rintro ⟨⟩
  dataCount := by
    apply count_concat tracks.dataCount
    · exact add_dataCount_isSome
    · rintro ⟨⟩
  finish := by
    apply count_concat tracks.finish
    · intro ended
      exact absurd (of_decide_eq_true ended) follows.1
    · rintro ⟨⟩
  elementOffset := by
    rw [awaitsElementOffset_concat, ← tracks.elementOffset]
    cases x with
    | elementOffset =>
      -- the segment stays the last one, and has its offset now
      cases last : v.lastElement <;>
        simp [after, receive, moveTo, last, isElement, isElementOffset, isActiveElement]
    | _ => rfl
  elementItem := by
    rw [awaitsItems_concat, ← tracks.elementItem]
    cases x with
    | elementOffset => cases last : v.lastElement <;> simp [after, receive, moveTo, last, isElement]
    | _ => rfl
  dataOffset := by
    rw [awaitsDataOffset_concat, ← tracks.dataOffset]
    cases x <;> rfl

theorem Tracks.beside (tracks : Tracks v told) (within : Within v v') : Tracks v' told := by
  rw [within.same]
  exact ⟨tracks.ordered, tracks.reached, tracks.start, tracks.dataCount, tracks.finish, tracks.elementOffset,
    tracks.elementItem, tracks.dataOffset⟩

/-- What is inside an expression has no part in the order. -/
theorem Tracks.inside {e : Event} (tracks : Tracks v told) (inside : e.IsInside) : Tracks v (told ++ [e]) := by
  have unlisted : e.section? = none ∧ e.isStart = false ∧ e.isDataCount = false ∧ e.isFinish = false := by
    cases e with
    | entry | site => exact inside.elim
    | instruction | exprEnd => exact ⟨rfl, rfl, rfl, rfl⟩
  have apart : (e.isElement = false ∧ e.isElementOffset = false) ∧ e.isData = false ∧ e.isDataOffset = false := by
    cases e with
    | entry | site => exact inside.elim
    | instruction | exprEnd => exact ⟨⟨rfl, rfl⟩, rfl, rfl⟩
  obtain ⟨noSection, noStart, noCount, noFinish⟩ := unlisted
  obtain ⟨⟨noElement, noOffset⟩, noData, noDataOffset⟩ := apart
  constructor
  case ordered => simpa [noSection] using tracks.ordered
  case reached => simpa [noSection] using tracks.reached
  case start => simpa [List.countP_append, noStart] using tracks.start
  case dataCount => simpa [List.countP_append, noCount] using tracks.dataCount
  case finish => simpa [List.countP_append, noFinish] using tracks.finish
  case elementOffset =>
    rw [awaitsElementOffset_concat, noElement, noOffset]
    exact tracks.elementOffset
  case elementItem =>
    rw [awaitsItems_concat, noElement]
    exact tracks.elementItem
  case dataOffset =>
    rw [awaitsDataOffset_concat, noData, noDataOffset]
    exact tracks.dataOffset

theorem tracks_start : Tracks {} [] :=
  ⟨.nil, by simp, Nat.le_refl _, Nat.le_refl _, Nat.le_refl _, rfl, rfl, rfl⟩

theorem Tracks.accept {e : Event} (tracks : Tracks v told) (effect : Effect v e true v') : Tracks v' (told ++ [e]) := by
  cases effect with
  | entry follows judges => exact tracks.of_entry follows judges
  | site follows opens => exact tracks.of_site follows
  | inside inside within => exact (tracks.inside inside).beside within

theorem Tracks.reject {e : Event} (tracks : Tracks v told) (effect : Effect v e false v') : Tracks v' told := by
  cases effect with
  | rejected outside spares => exact tracks.of_spares spares
  | inside inside within => exact tracks.beside within

/-- Whatever became of each event, the state keeps account of those that were accepted. -/
theorem tracks_after (es : List Event) : Tracks (consumer.after es {}) (consumer.accepted es {}) :=
  holds_along tracks_start (fun _ _ _ _ => Tracks.accept) (fun _ _ _ _ => Tracks.reject) es

/-! ## After the end -/

theorem Effect.ended {e : Event} {accepted : Bool} (effect : Effect v e accepted v') (ended : v.isEnded = true) :
    v'.isEnded = true ∧ (accepted = true → e.IsInside) := by
  cases effect with
  | entry follows judges => exact absurd (of_decide_eq_true ended) follows.1
  | site follows opens => exact absurd (of_decide_eq_true ended) follows.1
  | rejected outside spares => exact ⟨isEnded_of_rank ended spares.position, Bool.noConfusion⟩
  | inside inside within =>
    refine ⟨?_, fun _ => inside⟩
    rw [within.same]
    exact ended

/-- After the end of a module nothing is accepted but what is inside an expression. -/
theorem inside_of_ended (ended : v.isEnded = true) (es : List Event) : ∀ e ∈ consumer.accepted es v, e.IsInside := by
  induction es generalizing v with
  | nil => simp [Consumer.accepted]
  | cons e es ih =>
    obtain ⟨still, inside⟩ := (effect_event e v).ended ended
    cases outcome : consumer.event e v with
    | ok takes t =>
      rw [outcome] at still inside
      rw [Consumer.accepted_of_ok outcome]
      exact List.forall_mem_cons.mpr ⟨inside rfl, ih still⟩
    | error w t =>
      rw [outcome] at still
      rw [Consumer.accepted_of_error outcome]
      exact ih still

/-- The end of a module ends it even if it is rejected. -/
theorem isEnded_finish (v : Validator) : (left (consumer.event (.entry .finish) v)).isEnded = true := by
  show (left ((finish >>= fun _ => pure false) v)).isEnded = true
  rw [left_bind_pure, left_finish]
  rfl

/-! ## What is accepted next -/

theorem accepts_site_iff {x : Site} :
    isOk (consumer.event (.site x) v) = true ↔ v.Follows (Item.expr x []).section? ∧ ∃ o, v.Opens x o := by
  show isOk ((site x >>= fun _ => pure true) v) = true ↔ _
  rw [isOk_iff]
  simp only [bind_ok_iff, site_ok_iff]
  constructor
  · rintro ⟨_, _, _, _, ⟨follows, o, opens, -⟩, -⟩
    exact ⟨follows, o, opens⟩
  · rintro ⟨follows, o, opens⟩
    exact ⟨true, _, (), _, ⟨follows, o, opens, rfl⟩, rfl⟩

/-- The events that were accepted, in terms of one another. -/
structure Orderly (told : List Event) : Prop where
  sections : (told.filterMap section?).Pairwise fun a b => a.rank ≤ b.rank
  start : told.countP isStart ≤ 1
  dataCount : told.countP isDataCount ≤ 1
  finish : told.countP isFinish ≤ 1
  elementOffset : ∀ before later, told = before ++ .site .elementOffset :: later → awaitsElementOffset before = true
  elementItem : ∀ before later, told = before ++ .site .elementItem :: later → awaitsItems before = true
  dataOffset : ∀ before later, told = before ++ .site .dataOffset :: later → awaitsDataOffset before = true

theorem accepts_elementOffset_iff (tracks : Tracks v told) :
    isOk (consumer.event (.site .elementOffset) v) = true ↔
      v.Follows (some .element) ∧ awaitsElementOffset told = true := by
  rw [accepts_site_iff, ← tracks.elementOffset, Option.any_eq_true]
  simp only [Opens, exists_and_left, exists_eq, and_true]
  rfl

theorem accepts_elementItem_iff (tracks : Tracks v told) :
    isOk (consumer.event (.site .elementItem) v) = true ↔ v.Follows (some .element) ∧ awaitsItems told = true := by
  rw [accepts_site_iff, ← tracks.elementItem, Option.any_eq_true]
  refine and_congr_right fun _ => ⟨?_, ?_⟩
  · rintro ⟨o, last, member, listed, -⟩
    exact ⟨last, member, listed⟩
  · rintro ⟨last, member, listed⟩
    exact ⟨_, last, member, listed, rfl⟩

theorem accepts_dataOffset_iff (tracks : Tracks v told) :
    isOk (consumer.event (.site .dataOffset) v) = true ↔ v.Follows (some .data) ∧ awaitsDataOffset told = true := by
  rw [accepts_site_iff, ← tracks.dataOffset]
  simp only [Opens, exists_and_left, exists_eq, and_true]
  rfl

/-- In whatever order events come and whatever becomes of them, those that the validator accepts are in the order of
sections, the end of the module comes after everything else, and an offset or an item is accepted exactly where the
segments accepted before await it and the section order has not gone past it. -/
theorem accepted_orderly (es : List Event) :
    Orderly (consumer.accepted es {}) ∧
      (∀ more, ∀ e ∈ consumer.accepted more (consumer.after (es ++ [.entry .finish]) {}), e.IsInside) ∧
      let v := consumer.after es {}
      let told := consumer.accepted es {}
      (isOk (consumer.event (.site .elementOffset) v) = true ↔
        v.Follows (some .element) ∧ awaitsElementOffset told = true) ∧
      (isOk (consumer.event (.site .elementItem) v) = true ↔ v.Follows (some .element) ∧ awaitsItems told = true) ∧
      (isOk (consumer.event (.site .dataOffset) v) = true ↔ v.Follows (some .data) ∧ awaitsDataOffset told = true) := by
  have tracks := tracks_after es
  -- an event that was accepted was accepted in the state after those before it
  have accepted {e : Event} {before later : List Event} (split : consumer.accepted es {} = before ++ e :: later) :
      ∃ v, Tracks v before ∧ isOk (consumer.event e v) = true := by
    obtain ⟨done, takes, t, rfl, accepts⟩ := Consumer.delivered_of_accepted split
    exact ⟨_, tracks_after done, by rw [accepts]; rfl⟩
  refine ⟨?_, ?_, accepts_elementOffset_iff tracks, accepts_elementItem_iff tracks, accepts_dataOffset_iff tracks⟩
  · constructor
    case sections => exact tracks.ordered
    case start => exact tracks.start.trans (Bool.toNat_le _)
    case dataCount => exact tracks.dataCount.trans (Bool.toNat_le _)
    case finish => exact tracks.finish.trans (Bool.toNat_le _)
    case elementOffset =>
      intro before later split
      obtain ⟨v, tracks, accepts⟩ := accepted split
      exact ((accepts_elementOffset_iff tracks).mp accepts).2
    case elementItem =>
      intro before later split
      obtain ⟨v, tracks, accepts⟩ := accepted split
      exact ((accepts_elementItem_iff tracks).mp accepts).2
    case dataOffset =>
      intro before later split
      obtain ⟨v, tracks, accepts⟩ := accepted split
      exact ((accepts_dataOffset_iff tracks).mp accepts).2
  · rw [Consumer.after_append]
    exact inside_of_ended (isEnded_finish _)

-- a segment that is rejected does not take away the offset of the one before it, which has one offset only
example :
    consumer.accepted [.entry (.table ⟨0x70, ⟨1, none⟩⟩), .entry (.element ⟨0x70, .active 0, .expressions⟩),
      .entry (.element ⟨0x00, .passive, .expressions⟩), .site .elementOffset, .site .elementOffset] {} =
      [.entry (.table ⟨0x70, ⟨1, none⟩⟩), .entry (.element ⟨0x70, .active 0, .expressions⟩), .site .elementOffset] := by
  rfl

end Validator

end Wasm
