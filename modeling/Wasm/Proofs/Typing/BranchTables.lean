import Wasm.Proofs.Typing.Immediates

/-! # Branch tables

A branch table is accepted where a branch to each of its labels would be. Every label is tried on the operands of the
innermost block, and what is popped for it is put back before the next one is tried. In code that is reached that
restores the block; in code that is not, operands of unknown type may be added, but there any operands are found. So no
label sees what was tried before it, and neither the order of the labels nor how often one is listed matters.
-/

namespace Wasm

/-- A block whose operands are gone, since what follows in it is not reached. -/
def Frame.abandon (f : Frame) : Frame := { f with operands := [], unreachable := true }

namespace Operate

variable {f f' : Frame} {types : List ValueType}

/-- The operands that a list of types calls for are found in a frame. -/
def Finds (types : List ValueType) (f : Frame) : Prop := ∃ slots f', popAll types f = .ok slots f'

theorem finds_of_dead (types : List ValueType) (dead : f.unreachable = true) : Finds types f := by
  cases done : popAll types f with
  | ok slots f' => exact ⟨slots, f', done⟩
  | error v f' =>
    rw [lenient_popAll types f v f' done] at dead
    cases dead

theorem putBack_ok_iff : (∃ f', (popAll types >>= restore) f = .ok () f') ↔ Finds types f := by
  simp only [Outcome.bind_ok_iff]
  constructor
  · rintro ⟨_, slots, f', done, _⟩
    exact ⟨slots, f', done⟩
  · rintro ⟨slots, f', done⟩
    exact ⟨_, slots, f', done, rfl⟩

/-- Where code is reached, operands that are popped and put back leave the frame as it was. -/
theorem eq_of_putBack (live : f.unreachable = false) (done : (popAll types >>= restore) f = .ok () f') : f' = f := by
  obtain ⟨slots, g, popped, ⟨⟩⟩ := Outcome.bind_ok_iff.mp done
  obtain ⟨own, ops, split, rfl, rfl, _⟩ := popOnto_live live popped
  have whole : (own.reverse ++ []).reverseAux ops = f.operands := by
    rw [List.append_nil, List.reverseAux_eq, List.reverse_reverse, split]
  rw [whole]

end Operate

open Operate

/-- A frame in which the same operands are found as in another, of the same block. -/
structure Frame.Restores (f f' : Frame) : Prop where
  block : ∃ ops, f' = { f with operands := ops }
  finds : ∀ types, Finds types f' ↔ Finds types f

namespace Frame.Restores

variable {f f' f'' : Frame}

theorem refl (f : Frame) : f.Restores f := ⟨⟨f.operands, rfl⟩, fun _ => Iff.rfl⟩

theorem trans (first : f.Restores f') (second : f'.Restores f'') : f.Restores f'' where
  block := by
    obtain ⟨ops, rfl⟩ := first.block
    obtain ⟨ops', rfl⟩ := second.block
    exact ⟨ops', rfl⟩
  finds types := (second.finds types).trans (first.finds types)

theorem becomes (restores : f.Restores f') : f.Becomes f' := by
  obtain ⟨ops, rfl⟩ := restores.block
  exact .operands f ops

theorem abandon (restores : f.Restores f') : f'.abandon = f.abandon := by
  obtain ⟨ops, rfl⟩ := restores.block
  rfl

/-- Trying operands changes nothing that a later try could tell. -/
theorem of_putBack {types : List ValueType} (done : (popAll types >>= restore) f = .ok () f') : f.Restores f' := by
  cases reached : f.unreachable with
  | false =>
    obtain rfl := eq_of_putBack reached done
    exact refl f'
  | true =>
    obtain ⟨slots, g, popped, ⟨⟩⟩ := Outcome.bind_ok_iff.mp done
    obtain ⟨ops, rfl⟩ := popAll_becomes popped
    exact ⟨⟨_, rfl⟩, fun others => iff_of_true (finds_of_dead others reached) (finds_of_dead others reached)⟩

end Frame.Restores

namespace Check

variable {Γ : Scope} {f f' : Frame} {outer : List Frame} {given : List Slot} {c' : Checker}

theorem popped_abandon {types : List ValueType} {slots : List Slot} (done : popAll types f = .ok slots f') :
    { f' with operands := [], unreachable := true } = f.abandon := by
  obtain ⟨ops, rfl⟩ := popAll_becomes done
  rfl

/-- A branch is accepted where its label finds its operands, and nothing of them is left. -/
theorem branch_ok_iff_finds {label : UInt32} :
    branch label ⟨f :: outer, given⟩ = .ok () c' ↔
      (∃ types, (labels (f :: outer))[label.toNat]? = some types ∧ Finds types f) ∧
        c' = ⟨f.abandon :: outer, given⟩ := by
  rw [branch_ok_iff]
  constructor
  · rintro ⟨types, slots, f', target, done, rfl⟩
    exact ⟨⟨types, target, slots, f', done⟩, by rw [popped_abandon done]⟩
  · rintro ⟨⟨types, target, slots, f', done⟩, rfl⟩
    exact ⟨types, slots, f', target, done, by rw [popped_abandon done]⟩

/-- A label names an open block, takes `arity` operands there and finds them in the innermost block. -/
def Found (f : Frame) (outer : List Frame) (arity : Nat) (label : UInt32) : Prop :=
  ∃ types, (labels (f :: outer))[label.toNat]? = some types ∧ types.length = arity ∧ Finds types f

theorem found_of_restores {arity : Nat} {label : UInt32} (restores : f.Restores f') :
    Found f' outer arity label ↔ Found f outer arity label := by
  simp only [Found, labels_of_becomes outer restores.becomes, restores.finds]

theorem tableLabels_cons_ok_iff {default : UInt32} {arity : Nat} {label : UInt32} {targets : List UInt32} :
    tableLabels default arity (label :: targets) ⟨f :: outer, given⟩ = .ok () c' ↔
      ∃ types f₁, (labels (f :: outer))[label.toNat]? = some types ∧ types.length = arity ∧
        (popAll types >>= restore) f = .ok () f₁ ∧ tableLabels default arity targets ⟨f₁ :: outer, given⟩ = .ok () c' := by
  rw [tableLabels_cons, Outcome.bind_ok_iff]
  constructor
  · rintro ⟨types, _, found, rest⟩
    obtain ⟨target, rfl⟩ := labelTypes_ok_iff.mp found
    split at rest
    · cases rest
    · rename_i same
      obtain ⟨_, _, tried, more⟩ := Outcome.bind_ok_iff.mp rest
      obtain ⟨f₁, acted, rfl⟩ := innermost_ok_iff.mp tried
      exact ⟨types, f₁, target, not_not.mp same, acted, more⟩
  · rintro ⟨types, f₁, target, same, tried, more⟩
    refine ⟨types, _, labelTypes_ok_iff.mpr ⟨target, rfl⟩, ?_⟩
    rw [if_neg (not_not.mpr same)]
    exact Outcome.bind_ok_iff.mpr ⟨(), _, innermost_ok_iff.mpr ⟨f₁, tried, rfl⟩, more⟩

/-- Trying labels one after the other leaves a frame that no later label can tell from the first. -/
theorem restores_of_tableLabels {default : UInt32} {arity : Nat} {targets : List UInt32}
    (done : tableLabels default arity targets ⟨f :: outer, given⟩ = .ok () c') :
    ∃ f', c' = ⟨f' :: outer, given⟩ ∧ f.Restores f' := by
  induction targets generalizing f with
  | nil =>
    cases done
    exact ⟨f, rfl, .refl f⟩
  | cons label targets ih =>
    obtain ⟨types, f₁, _, _, tried, more⟩ := tableLabels_cons_ok_iff.mp done
    obtain ⟨f', rfl, later⟩ := ih more
    exact ⟨f', rfl, (Frame.Restores.of_putBack tried).trans later⟩

/-- The labels of a table pass if each does by itself. -/
theorem tableLabels_accepted_iff {default : UInt32} {arity : Nat} {targets : List UInt32} :
    (∃ c', tableLabels default arity targets ⟨f :: outer, given⟩ = .ok () c') ↔
      ∀ label ∈ targets, Found f outer arity label := by
  induction targets generalizing f with
  | nil => exact iff_of_true ⟨_, rfl⟩ (by simp)
  | cons label targets ih =>
    rw [List.forall_mem_cons]
    constructor
    · rintro ⟨c', done⟩
      obtain ⟨types, f₁, target, same, tried, more⟩ := tableLabels_cons_ok_iff.mp done
      have restores := Frame.Restores.of_putBack tried
      refine ⟨⟨types, target, same, putBack_ok_iff.mp ⟨f₁, tried⟩⟩, fun other member => ?_⟩
      exact (found_of_restores restores).mp (ih.mp ⟨c', more⟩ other member)
    · rintro ⟨⟨types, target, same, finds⟩, others⟩
      obtain ⟨f₁, tried⟩ := putBack_ok_iff.mpr finds
      have restores := Frame.Restores.of_putBack tried
      obtain ⟨c', more⟩ := ih.mpr fun other member => (found_of_restores restores).mpr (others other member)
      exact ⟨c', tableLabels_cons_ok_iff.mpr ⟨types, f₁, target, same, tried, more⟩⟩

/-- A branch table takes a number, and then each of its labels is found; after it nothing is left of the operands. -/
theorem branchTable_ok_iff_found {targets : List UInt32} {default : UInt32} :
    branchTable targets default ⟨f :: outer, given⟩ = .ok () c' ↔
      ∃ choice f₁, popExpected .i32 f = .ok choice f₁ ∧
        (∃ arity, ∀ label ∈ targets ++ [default], Found f₁ outer arity label) ∧
        c' = ⟨f₁.abandon :: outer, given⟩ := by
  rw [branchTable_ok_iff]
  constructor
  · rintro ⟨choice, f₁, types, f₂, slots, f', top, target, table, popped, rfl⟩
    obtain ⟨_, ⟨⟩, restores⟩ := restores_of_tableLabels table
    rw [← labels_of_becomes outer (steady_popExpected _ top)] at target
    refine ⟨choice, f₁, top, ⟨types.length, ?_⟩, by rw [popped_abandon popped, restores.abandon]⟩
    rw [List.forall_mem_append, List.forall_mem_singleton]
    exact ⟨tableLabels_accepted_iff.mp ⟨_, table⟩, types, target, rfl, (restores.finds types).mp ⟨slots, f', popped⟩⟩
  · rintro ⟨choice, f₁, top, ⟨arity, found⟩, rfl⟩
    rw [List.forall_mem_append, List.forall_mem_singleton] at found
    obtain ⟨listed, types, target, rfl, finds⟩ := found
    obtain ⟨c₂, table⟩ := tableLabels_accepted_iff.mpr listed
    obtain ⟨f₂, rfl, restores⟩ := restores_of_tableLabels table
    obtain ⟨slots, f', popped⟩ := (restores.finds types).mpr finds
    rw [labels_of_becomes outer (steady_popExpected _ top)] at target
    exact ⟨choice, f₁, types, f₂, slots, f', top, target, table, popped, by rw [popped_abandon popped, restores.abandon]⟩

/-- A label is found where it names an open block of its arity and could be branched to. -/
theorem found_iff_branch {arity : Nat} {label : UInt32} :
    Found f outer arity label ↔
      (∃ types, labelTypes label ⟨f :: outer, given⟩ = .ok types ⟨f :: outer, given⟩ ∧ types.length = arity) ∧
        ∃ d, step Γ (.br label) ⟨f :: outer, given⟩ = .ok () d := by
  have branches (d : Checker) : step Γ (.br label) ⟨f :: outer, given⟩ = .ok () d ↔ _ := branch_ok_iff_finds
  simp only [branches, labelTypes_ok_iff, and_true]
  constructor
  · rintro ⟨types, target, same, finds⟩
    exact ⟨⟨types, target, same⟩, _, ⟨types, target, finds⟩, rfl⟩
  · rintro ⟨⟨types, target, same⟩, _, ⟨_, target', finds⟩, rfl⟩
    obtain rfl : types = _ := Option.some.inj (target.symm.trans target')
    exact ⟨types, target, same, finds⟩

theorem brTable_ok_iff_branches {targets : List UInt32} {default : UInt32} {c : Checker} :
    step Γ (.brTable targets default) c = .ok () c' ↔
      ∃ choice c₁, innermost (popExpected .i32) c = .ok choice c₁ ∧
        (∃ arity, ∀ label ∈ targets ++ [default],
          (∃ types, labelTypes label c₁ = .ok types c₁ ∧ types.length = arity) ∧
            ∃ d, step Γ (.br label) c₁ = .ok () d) ∧
        step Γ (.br default) c₁ = .ok () c' := by
  obtain ⟨_ | ⟨f, outer⟩, given⟩ := c
  · -- an expression that has ended takes neither a table nor an operand
    constructor
    · intro done
      cases done
    · rintro ⟨_, _, popped, _⟩
      cases popped
  · have tables : step Γ (.brTable targets default) ⟨f :: outer, given⟩ = .ok () c' ↔ _ := branchTable_ok_iff_found
    rw [tables]
    constructor
    · rintro ⟨choice, f₁, top, ⟨arity, found⟩, rfl⟩
      refine ⟨choice, _, innermost_ok_iff.mpr ⟨f₁, top, rfl⟩, ⟨arity, fun label member => ?_⟩, ?_⟩
      · exact found_iff_branch.mp (found label member)
      · obtain ⟨types, target, _, finds⟩ := found default (by simp)
        exact branch_ok_iff_finds.mpr ⟨⟨types, target, finds⟩, rfl⟩
    · rintro ⟨choice, _, popped, ⟨arity, found⟩, left⟩
      obtain ⟨f₁, top, rfl⟩ := innermost_ok_iff.mp popped
      obtain ⟨_, rfl⟩ := branch_ok_iff_finds.mp left
      exact ⟨choice, f₁, top, ⟨arity, fun label member => found_iff_branch.mpr (found label member)⟩, rfl⟩

/-- A branch table is the conjunction of its branches: a number is popped, and from there each of its labels, the
default among them, names an open block, takes as many operands as the others and could be branched to by itself; the
state after it is that after a branch to the default. So tables that list the same labels, in whatever order and however
often, are accepted alike and leave the same state. -/
theorem branchTable_conjunction_of_branches (Γ : Scope) (targets : List UInt32) (default : UInt32) (c c' : Checker) :
    (step Γ (.brTable targets default) c = .ok () c' ↔
      ∃ choice c₁, innermost (popExpected .i32) c = .ok choice c₁ ∧
        (∃ arity, ∀ label ∈ targets ++ [default],
          (∃ types, labelTypes label c₁ = .ok types c₁ ∧ types.length = arity) ∧
            ∃ d, step Γ (.br label) c₁ = .ok () d) ∧
        step Γ (.br default) c₁ = .ok () c') ∧
    ∀ others : List UInt32, (∀ label, label ∈ others ↔ label ∈ targets) →
      (step Γ (.brTable others default) c = .ok () c' ↔ step Γ (.brTable targets default) c = .ok () c') := by
  refine ⟨brTable_ok_iff_branches, fun others same => ?_⟩
  simp only [brTable_ok_iff_branches, List.mem_append, same]

end Check

end Wasm
