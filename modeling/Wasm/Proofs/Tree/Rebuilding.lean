import Wasm.Proofs.Tree.Pieces
import Wasm.Proofs.Binary.Following

/-! # Trees that are built again

A tree that is replayed into a builder is built again, but for the offsets of segments that are not active, which are not
told. The tree that bytes leave in a builder has no such offset, wherever the decoding broke off: an offset is told only
while the last segment is an active one, and that is where it goes.
-/

namespace Wasm

open Binary Outcome

namespace Tree

/-! ## Offsets that are told -/

/-- The segment without an offset that is not told. -/
def Element.trim (e : Element) : Element := { e with offset := if e.segment.mode.isActive then e.offset else #[] }

/-- The segment without an offset that is not told. -/
def Data.trim (d : Data) : Data := { d with offset := if d.segment.mode.isActive then d.offset else #[] }

/-- The tree without the offsets of segments that are not active. -/
def trim (t : Tree) : Tree := { t with elements := t.elements.map Element.trim, data := t.data.map Data.trim }

theorem piecesOf_trim (t : Tree) (s : Section) : t.trim.piecesOf s = (t.piecesOf s).map Piece.trim := by
  cases s <;> simp [piecesOf, trim, Piece.trim, Element.trim, Data.trim, Function.comp_def]

theorem pieces_trim (t : Tree) : t.trim.pieces = t.pieces.map Piece.trim := by
  rw [pieces, pieces, List.map_flatMap]
  exact List.flatMap_congr fun s _ => t.piecesOf_trim s

theorem replay_trim (t : Tree) : ∃ last, t.replay Builder.consumer {} = .ok () ⟨t.trim, last⟩ := by
  obtain ⟨last, built⟩ := t.replay_builder
  have whole : ofPieces t.version t.trim.pieces = t.trim := t.trim.ofPieces_pieces
  rw [← pieces_trim, whole] at built
  exact ⟨last, built⟩

/-- No segment has an offset that is not told. -/
structure Settled (t : Tree) : Prop where
  elements : ∀ e ∈ t.elements, e.segment.mode.isActive = false → e.offset = #[]
  data : ∀ d ∈ t.data, d.segment.mode.isActive = false → d.offset = #[]

theorem Settled.trim {t : Tree} (settled : t.Settled) : t.trim = t := by
  have elements : t.elements.map Element.trim = t.elements := by
    refine (Array.map_congr_left fun e member => ?_).trans (Array.map_id' t.elements)
    cases active : e.segment.mode.isActive with
    | true => simp [Element.trim, active]
    | false => simp [Element.trim, active, ← settled.elements e member active]
  have data : t.data.map Data.trim = t.data := by
    refine (Array.map_congr_left fun d member => ?_).trans (Array.map_id' t.data)
    cases active : d.segment.mode.isActive with
    | true => simp [Data.trim, active]
    | false => simp [Data.trim, active, ← settled.data d member active]
  rw [Tree.trim, elements, data]

/-! ## The last member of an array -/

section Last

variable {α : Type} {f : α → α} {as : Array α}

theorem back?_modifyLast (f : α → α) (as : Array α) : (modifyLast f as).back? = as.back?.map f := by
  by_cases empty : as = #[]
  · rw [empty]
    rfl
  · obtain ⟨front, last, rfl⟩ := Array.exists_push_of_ne_empty empty
    rw [modifyLast_push, Array.back?_push, Array.back?_push, Option.map_some]

theorem forall_mem_modifyLast {P : α → Prop} (all : ∀ a ∈ as, P a) (last : ∀ a ∈ as.back?, P (f a)) :
    ∀ a ∈ modifyLast f as, P a := by
  by_cases empty : as = #[]
  · simp [empty, modifyLast]
  · obtain ⟨front, a, rfl⟩ := Array.exists_push_of_ne_empty empty
    rw [modifyLast_push]
    exact Array.forall_mem_push.mpr ⟨last a Array.back?_push, (Array.forall_mem_push.mp all).2⟩

end Last

/-! ## Building from bytes -/

/-- The tree of a builder that was told of a module up to a place: where an offset may come next, the last segment is an
active one. -/
structure Awaits (t : Tree) (p : Place) : Prop where
  settled : t.Settled
  offset : p.offset = true → ∀ e ∈ t.elements.back?, e.segment.mode.isActive = true
  dataOffset : p.dataOffset = true → ∀ d ∈ t.data.back?, d.segment.mode.isActive = true

namespace Awaits

variable {t : Tree} {p : Place}

theorem start : Awaits {} {} where
  settled := ⟨by simp, by simp⟩
  offset pending := by cases pending
  dataOffset pending := by cases pending

theorem add (awaits : t.Awaits p) (e : Entry) : (t.add e).Awaits (p.pass (.entry e)) := by
  cases e with
  | element segment =>
    refine ⟨⟨Array.forall_mem_push.mpr ⟨fun _ => rfl, awaits.settled.elements⟩, awaits.settled.data⟩, ?_,
      awaits.dataOffset⟩
    intro active e last
    obtain rfl : { segment } = e := Option.some.inj (Array.back?_push.symm.trans last)
    exact active
  | data segment =>
    refine ⟨⟨awaits.settled.elements, Array.forall_mem_push.mpr ⟨fun _ => rfl, awaits.settled.data⟩⟩, awaits.offset, ?_⟩
    intro active d last
    obtain rfl : { segment } = d := Option.some.inj (Array.back?_push.symm.trans last)
    exact active
  | _ => exact ⟨⟨awaits.settled.elements, awaits.settled.data⟩, awaits.offset, awaits.dataOffset⟩

/-- A change of the last element segment that keeps its mode. -/
theorem modifyElement (awaits : t.Awaits p) {f : Element → Element} (mode : ∀ e, (f e).segment = e.segment)
    (offset : ∀ e ∈ t.elements.back?, e.segment.mode.isActive = false → (f e).offset = #[]) :
    Awaits { t with elements := modifyLast f t.elements } p := by
  refine ⟨⟨forall_mem_modifyLast awaits.settled.elements fun e last => ?_, awaits.settled.data⟩, ?_, awaits.dataOffset⟩
  · rw [mode]
    exact offset e last
  · intro pending e last
    rw [back?_modifyLast] at last
    obtain ⟨e, before, rfl⟩ := Option.map_eq_some_iff.mp last
    rw [mode]
    exact awaits.offset pending e before

/-- What is done to the items of the last segment leaves its offset as it is. -/
theorem modifyItems (awaits : t.Awaits p) (f : Array Expr → Array Expr) :
    Awaits { t with elements := modifyLast (fun e => { e with items := f e.items }) t.elements } p :=
  awaits.modifyElement (fun _ => rfl) fun e last => awaits.settled.elements e (Array.mem_of_back? last)

theorem modifyData (awaits : t.Awaits p) {f : Data → Data} (mode : ∀ d, (f d).segment = d.segment)
    (active : ∀ d ∈ t.data.back?, d.segment.mode.isActive = true) :
    Awaits { t with data := modifyLast f t.data } p := by
  refine ⟨⟨awaits.settled.elements, forall_mem_modifyLast awaits.settled.data fun d last inactive => ?_⟩,
    awaits.offset, ?_⟩
  · rw [mode, active d last] at inactive
    cases inactive
  · intro pending d last
    rw [back?_modifyLast] at last
    obtain ⟨d, before, rfl⟩ := Option.map_eq_some_iff.mp last
    rw [mode]
    exact active d before

theorem addSite (awaits : t.Awaits p) (x : Site) : (t.addSite x).Awaits p := by
  cases x with
  | elementItem => exact awaits.modifyItems fun items => items.push #[]
  | _ => exact ⟨⟨awaits.settled.elements, awaits.settled.data⟩, awaits.offset, awaits.dataOffset⟩

/-- An instruction of an expression that may come here. Only an offset could disagree with the mode of its segment. -/
theorem addInstruction (awaits : t.Awaits p) {x : Site} {body : List Instruction} (admits : p.Admits (.expr x body))
    (i : Instruction) : (t.addInstruction i x).Awaits p := by
  cases x with
  | elementOffset =>
    refine awaits.modifyElement (fun _ => rfl) fun e last inactive => ?_
    rw [awaits.offset admits.2 e last] at inactive
    cases inactive
  | elementItem => exact awaits.modifyItems (modifyLast fun item => item.push i)
  | dataOffset => exact awaits.modifyData (fun _ => rfl) (awaits.dataOffset admits.2)
  | _ => exact ⟨⟨awaits.settled.elements, awaits.settled.data⟩, awaits.offset, awaits.dataOffset⟩

theorem addInstructions (awaits : t.Awaits p) {x : Site} {body : List Instruction} (admits : p.Admits (.expr x body))
    (is : List Instruction) : (is.foldl (fun t i => t.addInstruction i x) t).Awaits p := by
  induction is generalizing t with
  | nil => exact awaits
  | cons i is ih => exact ih (awaits.addInstruction admits i)

/-- Behind an expression no more is awaited than before it. -/
theorem pass (awaits : t.Awaits p) (x : Site) (body : List Instruction) : t.Awaits (p.pass (.expr x body)) := by
  refine ⟨awaits.settled, fun pending => ?_, fun pending => ?_⟩
  · cases x with
    | elementOffset => cases pending
    | _ => exact awaits.offset pending
  · cases x with
    | dataOffset => cases pending
    | _ => exact awaits.dataOffset pending

end Awaits

namespace Builder

variable {b b' : Builder} {p : Place}

/-- A builder has nothing to do at the end of an expression, so one that breaks off is built like a whole one. -/
theorem cut_eq_item (x : Site) (body : List Instruction) : consumer.cut x body = consumer.item (.expr x body) := by
  have same : consumer.feed body = consumer.feedOpen body := by
    rw [Consumer.feed_eq]
    exact bind_pure_unit
  rw [Consumer.cut, Consumer.item, same]

theorem awaits_item {x : Item} (awaits : b.tree.Awaits p) (admits : p.Admits x) (told : consumer.item x b = .ok () b') :
    b'.tree.Awaits (p.pass x) := by
  cases x with
  | entry e =>
    cases told
    exact awaits.add e
  | expr x body =>
    obtain ⟨takes, b₁, sited, fed⟩ := bind_ok_iff.mp told
    have begun : consumer.site x b = if b.tree.hasPlace x then .ok true ⟨b.tree.addSite x, some x⟩ else .ok false b := rfl
    rw [begun] at sited
    split at sited
    · cases sited
      have fed : consumer.feed body _ = .ok () b' := fed
      rw [feed_at] at fed
      cases fed
      exact ((awaits.addSite x).addInstructions admits body).pass x body
    · cases sited
      cases fed
      exact awaits.pass x body

theorem awaits_hear {x : Notice} (awaits : b.tree.Awaits p) (allowed : p.Allows x)
    (told : consumer.hear x b = .ok () b') : b'.tree.Awaits (p.after x) := by
  cases x with
  | item funcs x => exact awaits_item awaits allowed.2.1 ((consumer.hear_item_ok_iff funcs).mp told)
  | cut funcs x body =>
    have told : consumer.hear (.item funcs (.expr x body)) b = .ok () b' := by
      rw [Consumer.hear, ← cut_eq_item]
      exact told
    exact awaits_item awaits allowed.2.1 ((consumer.hear_item_ok_iff funcs).mp told)
  | frame f =>
    cases told
    exact awaits

theorem awaits_hearAll {told : List Notice} (awaits : b.tree.Awaits p) (orderly : p.Orderly told)
    (heard : consumer.hearAll told b = .ok () b') : b'.tree.Awaits (p.along told) := by
  induction told generalizing b p with
  | nil =>
    cases heard
    exact awaits
  | cons x told ih =>
    obtain ⟨_, b₁, one, more⟩ := bind_ok_iff.mp heard
    exact ih (awaits_hear awaits orderly.1 one) orderly.2 more

/-- Whether or not bytes can be decoded to their end, no segment of the tree that they leave has an offset that is not
told. -/
theorem settled_of_deliver (bytes : List UInt8) : (deliver consumer bytes {}).2.tree.Settled := by
  obtain ⟨told, r, tells, orderly, -⟩ := Proceeds.produce (.ofBytes bytes)
  obtain ⟨u, b, heard⟩ := isOk_iff.mp (obliging.accepts_hearAll told {})
  rw [deliver_of_tells tells, heard]
  exact (awaits_hearAll .start orderly heard).settled

end Builder

/-- Every tree can be replayed into a builder, which builds it again with the offsets of the segments that are not active
left out, and nothing else changed. The tree that bytes leave in a builder is built again as it is, also where the bytes
cannot be decoded to their end. -/
theorem replay_rebuilds :
    (∀ t : Tree, ∃ b, t.replay Builder.consumer {} = .ok () b ∧ b.tree = t.trim) ∧
    ∀ bytes : List UInt8, ∃ b,
      (deliver Builder.consumer bytes {}).2.tree.replay Builder.consumer {} = .ok () b ∧
        b.tree = (deliver Builder.consumer bytes {}).2.tree := by
  refine ⟨fun t => ?_, fun bytes => ?_⟩
  · obtain ⟨last, built⟩ := t.replay_trim
    exact ⟨_, built, rfl⟩
  · obtain ⟨last, built⟩ := (deliver Builder.consumer bytes {}).2.tree.replay_trim
    exact ⟨_, built, (Builder.settled_of_deliver bytes).trim⟩

end Tree

end Wasm
