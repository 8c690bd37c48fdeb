import Wasm.Proofs.Typing.Heights

/-! # Nothing outside the innermost block is touched

On one stack for all blocks, an instruction, accepted or rejected, leaves the operands below the height of the innermost
block and the blocks around it as they were. The end of a block puts its results in the place of its operands, and a
conditional branch in code that is reached takes its condition and nothing else. A block whose code is not reached stays
so until it is closed.
-/

namespace Wasm

open Outcome

/-- Where code is reached, the types of all operands are known. -/
theorem Frame.Tidy.holds {f : Frame} (tidy : f.Tidy) (live : f.unreachable = false) : ∃ types, f.Holds types := by
  have known : ∀ slot ∈ f.operands, slot ∈ Set.range Slot.known := by
    intro slot own
    cases slot with
    | known t => exact ⟨t, rfl⟩
    | unknown => exact absurd (tidy own) (by simp [live])
  obtain ⟨types, own⟩ := (Set.range_list_map Slot.known).ge known
  exact ⟨types.reverse, live, by simp [Frame.stacked_eq, own]⟩

namespace Flat

/-! ## The end of a block and conditional branches -/

section

variable {f : Frame} {outer : List Frame} {given : List Slot} {c' : Checker}

/-- What a closed block gives lies on top of the operands of the blocks around it, which are the same blocks. -/
theorem joined_of_give {types : List ValueType} (gave : Check.give types ⟨outer, given⟩ = .ok () c') :
    joined c'.frames c'.given = types.reverse.map .known ++ joined outer given ∧
      blocks c'.given c'.frames = blocks given outer := by
  cases outer with
  | nil =>
    cases gave
    exact ⟨Frame.stacked_eq types given, rfl⟩
  | cons g outer =>
    cases gave
    refine ⟨?_, rfl⟩
    rw [joined_cons, joined_cons, ← List.append_assoc, ← Frame.stacked_eq]

/-- In code that is reached, a conditional branch takes its condition and puts back what it found for its target. -/
theorem joined_of_branchIf {Γ : Scope} {label : UInt32} (tidy : f.Tidy) (live : f.unreachable = false)
    (done : Check.step Γ (.brIf label) ⟨f :: outer, given⟩ = .ok () c') :
    joined (f :: outer) given = .known .i32 :: joined c'.frames c'.given := by
  obtain ⟨held, holds⟩ := tidy.holds live
  obtain ⟨_, f₁, types, _, f', top, _, popped, rfl⟩ := Check.branchIf_ok_iff.mp done
  obtain ⟨below, rfl, holds₁⟩ := Operate.popExpected_of_holds holds top
  obtain ⟨rest, rfl, holds', _⟩ := Operate.popAll_of_holds holds₁ popped
  have after := (holds'.receive types).2
  simp [holds.2, after, Frame.stacked_eq]

end

/-! ## What an instruction leaves as it was -/

/-- What stays of a block while it is open. -/
structure Block.Lasts (b later : Block) : Prop where
  kind : later.kind = b.kind
  startTypes : later.startTypes = b.startTypes
  endTypes : later.endTypes = b.endTypes
  height : later.height = b.height
  unreachable : b.unreachable = true → later.unreachable = true

theorem Block.Lasts.refl (b : Block) : b.Lasts b := ⟨rfl, rfl, rfl, rfl, id⟩

theorem Block.Lasts.trans {a b c : Block} (first : a.Lasts b) (second : b.Lasts c) : a.Lasts c where
  kind := second.kind.trans first.kind
  startTypes := second.startTypes.trans first.startTypes
  endTypes := second.endTypes.trans first.endTypes
  height := second.height.trans first.height
  unreachable := second.unreachable ∘ first.unreachable

theorem Block.lasts_of_becomes {f f' : Frame} (becomes : f.Becomes f') (height : Nat) :
    Block.Lasts ⟨f.kind, f.startTypes, f.endTypes, height, f.unreachable⟩
      ⟨f'.kind, f'.startTypes, f'.endTypes, height, f'.unreachable⟩ := by
  obtain ⟨kind, starts, ends, dead⟩ := becomes
  exact ⟨kind, starts, ends, rfl, dead⟩

/-- What happened in the block `b`, the innermost one, and not to the blocks around it or to the operands below it. Of the
blocks inside of `outer` the outermost one is `b`, unless that was replaced by a block of another kind. -/
structure Isolated (b : Block) (outer : List Block) (s s' : State) : Prop where
  below : s'.operands.reverse.take b.height = s.operands.reverse.take b.height
  around : ∃ inner, s'.blocks = inner ++ outer ∧ ∀ last ∈ inner.getLast?, last.kind = b.kind → b.Lasts last

section

variable {i : Instruction} {accepted : Bool} {f : Frame} {outer : List Frame} {given : List Slot} {c' : Checker}
  {b : Block} {around : List Block}

/-- Every instruction works above the operands of the blocks around the innermost one. -/
theorem suffix_of_move (move : Check.Move i accepted ⟨f :: outer, given⟩ c') :
    joined outer given <:+ joined c'.frames c'.given := by
  cases move with
  | inside | divided | refused =>
    rw [joined_cons]
    exact List.suffix_append _ _
  | opened =>
    rw [joined_cons, joined_cons, ← List.append_assoc]
    exact List.suffix_append _ _
  | closed gave =>
    rw [(joined_of_give gave).1]
    exact List.suffix_append _ _

/-- The blocks around the innermost one stay, and it is itself the next one if it is open still. -/
theorem blocks_of_move (move : Check.Move i accepted ⟨f :: outer, given⟩ c')
    (innermost : blocks given (f :: outer) = b :: around) :
    ∃ inner, blocks c'.given c'.frames = inner ++ around ∧
      ∀ last ∈ inner.getLast?, last.kind = b.kind → b.Lasts last := by
  obtain ⟨rfl, rfl⟩ := List.cons.inj innermost
  cases move with
  | inside _ evolves =>
    refine ⟨[_], rfl, ?_⟩
    rintro last ⟨⟩ -
    exact Block.lasts_of_becomes evolves.1 _
  | opened _ _ evolves =>
    refine ⟨[_, _], rfl, ?_⟩
    rintro last ⟨⟩ -
    exact Block.lasts_of_becomes evolves.1 _
  | divided isIf =>
    refine ⟨[_], rfl, ?_⟩
    rintro last ⟨⟩ same
    cases same.trans isIf
  | refused isIf evolves =>
    refine ⟨[_], rfl, ?_⟩
    rintro last ⟨⟩ same
    cases evolves.1.1.symm.trans (same.trans isIf)
  | closed gave =>
    refine ⟨[], (joined_of_give gave).2, ?_⟩
    rintro last ⟨⟩

end

theorem take_of_suffix {below operands : List Slot} (suffix : below <:+ operands) :
    operands.reverse.take below.length = below.reverse := by
  obtain ⟨above, rfl⟩ := suffix
  simp

theorem frame_of_innermost {c : Checker} {b : Block} {outer : List Block}
    (innermost : (ofChecker c).blocks = b :: outer) :
    ∃ f frames given, c = ⟨f :: frames, given⟩ ∧ outer = blocks given frames ∧
      b = ⟨f.kind, f.startTypes, f.endTypes, (joined frames given).length, f.unreachable⟩ := by
  obtain ⟨frames, given⟩ := c
  cases frames with
  | nil => cases innermost
  | cons f frames =>
    obtain ⟨rfl, rfl⟩ := List.cons.inj innermost
    exact ⟨f, frames, given, rfl, rfl, rfl⟩

/-- What every step leaves as it was. -/
theorem isolated_of_step (Γ : Scope) (i : Instruction) {c : Checker} {b : Block} {outer : List Block}
    (innermost : (ofChecker c).blocks = b :: outer) :
    Isolated b outer (ofChecker c) (ofChecker (left (Check.step Γ i c))) := by
  obtain ⟨f, frames, given, rfl, rfl, rfl⟩ := frame_of_innermost innermost
  have move := (Check.step_moves Γ i f frames given).move
  have before : joined frames given <:+ joined (f :: frames) given := by
    rw [joined_cons]
    exact List.suffix_append _ _
  exact ⟨(take_of_suffix (suffix_of_move move)).trans (take_of_suffix before).symm, blocks_of_move move innermost⟩

/-! ## Blocks that stay open -/

/-- The open block at a place, counted from the outermost one. -/
def State.block? (s : State) (place : Nat) : Option Block := s.blocks.reverse[place]?

/-- The block at a place stays open while instructions are delivered. An instruction never puts another block of the same
kind in its place: what takes the place of a block is the second part of a conditional one. -/
def State.StaysOpen (Γ : Scope) (place : Nat) (kind : FrameKind) (is : List Instruction) (s : State) : Prop :=
  ∀ before, before <+: is → ((machine.after Γ before s).block? place).map Block.kind = some kind

theorem Isolated.lasts {b x y : Block} {outer : List Block} {s s' : State} {place : Nat} (isolated : Isolated b outer s s')
    (innermost : s.blocks = b :: outer) (before : s.block? place = some x) (later : s'.block? place = some y)
    (same : y.kind = x.kind) : x.Lasts y := by
  obtain ⟨inner, shape, lasts⟩ := isolated.around
  rw [State.block?, innermost, List.reverse_cons] at before
  rw [State.block?, shape, List.reverse_append] at later
  by_cases below : place < outer.reverse.length
  · rw [List.getElem?_append_left below] at before later
    obtain rfl : x = y := Option.some.inj (before.symm.trans later)
    exact .refl x
  · rw [List.getElem?_append_right (Nat.le_of_not_lt below)] at before later
    -- the innermost block is the only one that is not among those around it
    rw [List.getElem?_singleton, Option.ite_none_right_eq_some] at before
    obtain ⟨first, ⟨⟩⟩ := before
    rw [first, ← List.head?_eq_getElem?, List.head?_reverse] at later
    exact lasts y later same

/-- By induction on the instructions: between any two of them the block is still of its kind, hence the same. -/
theorem lasts_after {Γ : Scope} {place : Nat} {is : List Instruction} {c : Checker} {x : Block}
    (found : (ofChecker c).block? place = some x) (stays : (ofChecker c).StaysOpen Γ place x.kind is) :
    ∃ y, (machine.after Γ is (ofChecker c)).block? place = some y ∧ x.Lasts y := by
  induction is generalizing c x with
  | nil => exact ⟨x, found, .refl x⟩
  | cons i rest ih =>
    have one : left (machine.step Γ i (ofChecker c)) = ofChecker (left (Check.step Γ i c)) := after_ofChecker Γ [i] c
    have next := stays [i] (by simp)
    change ((left (machine.step Γ i (ofChecker c))).block? place).map Block.kind = some x.kind at next
    rw [one, Option.map_eq_some_iff] at next
    obtain ⟨y, there, same⟩ := next
    have lasts : x.Lasts y := by
      cases going : (ofChecker c).blocks with
      | nil => simp [State.block?, going] at found
      | cons b outer => exact (isolated_of_step Γ i going).lasts going found there same
    have stays' : (ofChecker (left (Check.step Γ i c))).StaysOpen Γ place y.kind rest := by
      intro before first
      rw [← one, same]
      exact stays (i :: before) (List.cons_prefix_cons.mpr ⟨rfl, first⟩)
    obtain ⟨z, last, more⟩ := ih there stays'
    rw [← one] at last
    exact ⟨z, last, lasts.trans more⟩

/-! ## Every step on one stack -/

theorem left_shown {α : Type} (r : EStateM.Result Violation Checker α) : left (shown ofChecker r) = ofChecker (left r) := by
  cases r <;> rfl

theorem shown_ok_iff {r : EStateM.Result Violation Checker Unit} {s : State} :
    shown ofChecker r = .ok () s ↔ ∃ c, r = .ok () c ∧ ofChecker c = s := by
  cases r <;> simp [shown]

/-- The end of a block leaves the operands below it with its results on top. -/
theorem operands_of_end {Γ : Scope} {c : Checker} {b : Block} {outer : List Block} {s : State}
    (innermost : (ofChecker c).blocks = b :: outer) (ended : machine.step Γ .end_ (ofChecker c) = .ok () s) :
    s.operands.reverse = (ofChecker c).operands.reverse.take b.height ++ b.endTypes.map .known ∧ s.blocks = outer := by
  obtain ⟨f, frames, given, rfl, rfl, rfl⟩ := frame_of_innermost innermost
  rw [step_ofChecker] at ended
  obtain ⟨c', done, rfl⟩ := shown_ok_iff.mp ended
  obtain ⟨operands, blocks⟩ := joined_of_give (Check.step_end_ok_iff.mp done).2
  refine ⟨?_, blocks⟩
  show (joined c'.frames c'.given).reverse = (joined (f :: frames) given).reverse.take _ ++ _
  rw [operands, joined_cons, take_of_suffix (List.suffix_append _ _)]
  simp

theorem operands_of_branchIf {Γ : Scope} {label : UInt32} {c : Checker} {b : Block} {outer : List Block} {s : State}
    (tidy : ∀ f ∈ c.frames, f.Tidy) (innermost : (ofChecker c).blocks = b :: outer) (live : b.unreachable = false)
    (branched : machine.step Γ (.brIf label) (ofChecker c) = .ok () s) :
    (ofChecker c).operands = .known .i32 :: s.operands := by
  obtain ⟨f, frames, given, rfl, rfl, rfl⟩ := frame_of_innermost innermost
  rw [step_ofChecker] at branched
  obtain ⟨c', done, rfl⟩ := shown_ok_iff.mp branched
  exact joined_of_branchIf (tidy f List.mem_cons_self) live done

/-- After every history, and whether or not the next instruction is accepted, the operands below the innermost block and
the blocks around it stay as they were. The end of the block leaves those operands with the block's results on top, and
a conditional branch, where code is reached, leaves all operands but its condition. A block that stays open keeps its
kind, its types and its height, and is unreachable forever once it is. -/
theorem innermost_block_isolated {Γ : Scope} {results : List ValueType} {is : List Instruction} {s : State} {b : Block}
    {outer : List Block} (reached : machine.after Γ is (start results) = s) (innermost : s.blocks = b :: outer) :
    b.height ≤ s.operands.length ∧
    (∀ i, machine.step Γ i s = shown ofChecker (Check.step Γ i (Check.after Γ is (.start results))) ∧
      (left (machine.step Γ i s)).operands.reverse.take b.height = s.operands.reverse.take b.height ∧
      outer <:+ (left (machine.step Γ i s)).blocks) ∧
    (∀ s', machine.step Γ .end_ s = .ok () s' →
      s'.operands.reverse = s.operands.reverse.take b.height ++ b.endTypes.map .known ∧ s'.blocks = outer) ∧
    (∀ label s', b.unreachable = false → machine.step Γ (.brIf label) s = .ok () s' →
      s.operands = .known .i32 :: s'.operands) ∧
    ∀ more place x, s.block? place = some x → s.StaysOpen Γ place x.kind more →
      ∃ y, (machine.after Γ more s).block? place = some y ∧ x.Lasts y := by
  obtain rfl : ofChecker (Check.after Γ is (.start results)) = s :=
    (after_ofChecker Γ is (.start results)).symm.trans reached
  have sound : (Check.after Γ is (.start results)).Sound results := (Checker.sound_start results).after is
  refine ⟨(sound_ofChecker sound).within b (by simp [innermost]), fun i => ?_, fun s' => operands_of_end innermost,
    fun label s' => operands_of_branchIf sound.tidy innermost, fun more place x => lasts_after⟩
  obtain ⟨below, inner, shape, -⟩ := isolated_of_step Γ i innermost
  rw [step_ofChecker, left_shown]
  exact ⟨rfl, below, inner, shape.symm⟩

/-- A block that is never left, with an operand of the block around it below and one of its own, when the second part of
a conditional block is met in it. -/
theorem innermost_block_isolated_unreached :
    let Γ : Scope := .function {} [.i32] {} Std.TreeSet.empty
    let s := machine.after Γ [.plain (.i32Const 1), .block .empty, .unreachable, .plain (.i64Const 2)] (start [.i32])
    s.blocks = [⟨.block, [], [], 1, true⟩, ⟨.function, [], [.i32], 0, false⟩] ∧
      (left (machine.step Γ .else_ s)).operands.reverse.take 1 = [.known .i32] ∧
      ∃ y, (machine.after Γ [.else_] s).block? 1 = some y ∧ y.unreachable = true := by
  intro Γ s
  have innermost : s.blocks = [⟨.block, [], [], 1, true⟩, ⟨.function, [], [.i32], 0, false⟩] := by decide +kernel
  obtain ⟨-, untouched, -, -, lasts⟩ := innermost_block_isolated (Γ := Γ) rfl innermost
  have below : s.operands.reverse.take 1 = [.known .i32] := by decide +kernel
  have found : s.block? 1 = some ⟨.block, [], [], 1, true⟩ := by
    rw [State.block?, innermost]
    rfl
  have stays : s.StaysOpen Γ 1 .block [.else_] := by
    intro before first
    rcases List.prefix_cons_iff.mp first with rfl | ⟨_, rfl, none⟩
    · decide +kernel
    · obtain rfl := List.prefix_nil.mp none
      decide +kernel
  obtain ⟨y, there, last⟩ := lasts [.else_] 1 _ found stays
  exact ⟨innermost, (untouched .else_).2.1.trans below, y, there, last.unreachable rfl⟩

end Flat

end Wasm
