import Wasm.Proofs.Typing.Judgement
import Wasm.Proofs.Typing.Signature
import Wasm.Proofs.Typing.Steps

/-! # Instructions inside a block

An instruction that opens and closes no block acts on the innermost block only. Where code is reached, one that
is accepted has a type that takes the operands held; and an instruction that has a type is accepted wherever the
operands fit what it takes, in code that is never reached too.
-/

namespace Wasm

/-! ## The innermost block alone is touched -/

/-- What is done to a frame leaves its block as it was opened. -/
def Operate.Steady {α : Type} (m : Operate α) : Prop := ∀ ⦃f a f'⦄, m f = .ok a f' → f.Becomes f'

namespace Operate

variable {α β : Type}

theorem Steady.bind {m : Operate α} {k : α → Operate β} (first : m.Steady) (second : ∀ a, (k a).Steady) :
    (m >>= k).Steady := by
  intro f b f' done
  obtain ⟨a, g, one, two⟩ := Outcome.bind_ok_iff.mp done
  exact (first one).trans (second a two)

theorem steady_throw (v : Violation) : (throw v : Operate α).Steady :=
  fun _ _ _ done => (nomatch done)

theorem steady_push (s : Slot) : (push s).Steady := by
  rintro f _ _ ⟨⟩
  exact .operands f _

theorem steady_pushAll (types : List ValueType) : (pushAll types).Steady := by
  rintro f _ _ ⟨⟩
  exact .operands f _

theorem steady_restore (slots : List Slot) : (restore slots).Steady := by
  rintro f _ _ ⟨⟩
  exact .operands f _

theorem steady_markUnreachable : markUnreachable.Steady := by
  rintro f _ _ ⟨⟩
  exact ⟨rfl, rfl, rfl, fun _ => rfl⟩

theorem steady_isUnreachable : isUnreachable.Steady := by
  rintro f _ _ ⟨⟩
  exact .refl f

theorem steady_pop : pop.Steady := by
  intro f s f' popped
  obtain ⟨ops, _, rfl⟩ | ⟨_, _, _, rfl⟩ := pop_cases popped
  · exact .operands f ops
  · exact .refl f'

theorem steady_popExpected (t : ValueType) : (popExpected t).Steady :=
  fun _ _ _ popped => steady_pop (pop_of_popExpected popped)

theorem steady_popAll (types : List ValueType) : (popAll types).Steady := by
  intro f slots f' done
  obtain ⟨ops, rfl⟩ := popAll_becomes done
  exact .operands f ops

theorem steady_apply (type : FuncType) : (apply type).Steady :=
  (steady_popAll _).bind fun _ => steady_pushAll _

theorem steady_select : select.Steady := by
  refine (steady_popExpected _).bind fun _ => steady_pop.bind fun first => steady_pop.bind fun second =>
    steady_isUnreachable.bind fun dead => ?_
  dsimp only
  split
  · exact steady_push _
  · split
    · exact steady_throw _
    · split
      · exact steady_push _
      · exact steady_throw _

theorem steady_refIsNull : refIsNull.Steady := by
  refine steady_pop.bind fun operand => steady_isUnreachable.bind fun dead => ?_
  split
  · exact steady_push _
  · exact steady_throw _

end Operate

/-- A step that touches the innermost block only, and leaves it open. -/
def Check.Inner {α : Type} (m : Check α) : Prop :=
  ∀ ⦃f outer given a c'⦄, m ⟨f :: outer, given⟩ = .ok a c' → ∃ f', c' = ⟨f' :: outer, given⟩ ∧ f.Becomes f'

namespace Check

variable {α β : Type}

theorem Inner.bind {m : Check α} {k : α → Check β} (first : m.Inner) (second : ∀ a, (k a).Inner) :
    (m >>= k).Inner := by
  intro f outer given b c' done
  obtain ⟨a, c, one, two⟩ := Outcome.bind_ok_iff.mp done
  obtain ⟨g, rfl, kept⟩ := first one
  obtain ⟨f', rfl, kept'⟩ := second a two
  exact ⟨f', rfl, kept.trans kept'⟩

theorem inner_innermost {m : Operate α} (steady : m.Steady) : (innermost m).Inner := by
  intro f outer given a c' done
  obtain ⟨f', acted, rfl⟩ := innermost_ok_iff.mp done
  exact ⟨f', rfl, steady acted⟩

theorem inner_lift (x : Verdict α) : (liftM x : Check α).Inner := by
  intro f outer given a c' done
  obtain ⟨_, rfl⟩ := Outcome.lift_ok_iff.mp done
  exact ⟨f, rfl, .refl f⟩

theorem inner_labelTypes (label : UInt32) : (labelTypes label).Inner := by
  intro f outer given types c' done
  obtain ⟨_, rfl⟩ := labelTypes_ok_iff.mp done
  exact ⟨f, rfl, .refl f⟩

theorem inner_tableLabels (default : UInt32) (arity : Nat) (labels : List UInt32) :
    (tableLabels default arity labels).Inner := by
  induction labels with
  | nil =>
    rintro f outer given _ _ ⟨⟩
    exact ⟨f, rfl, .refl f⟩
  | cons label rest ih =>
    intro f outer given u c' done
    unfold tableLabels at done
    split at done
    · cases done
    · rename_i types c found
      obtain ⟨_, rfl⟩ := labelTypes_ok_iff.mp found
      split at done
      · cases done
      · split at done
        · cases done
        · rename_i put
          obtain ⟨g, rfl, kept⟩ := inner_innermost
            ((Operate.steady_popAll types).bind Operate.steady_restore) put
          obtain ⟨f', rfl, kept'⟩ := ih done
          exact ⟨f', rfl, kept.trans kept'⟩

/-- Taking operands and going elsewhere. -/
theorem inner_leaveFor (types : List ValueType) :
    (innermost do let _ ← Operate.popAll types; Operate.markUnreachable).Inner :=
  inner_innermost ((Operate.steady_popAll types).bind fun _ => Operate.steady_markUnreachable)

theorem inner_instruction (Γ : Scope) (i : Leaf) : (instruction Γ i.instruction).Inner := by
  cases i with
  | unreachable => exact inner_innermost Operate.steady_markUnreachable
  | br label => exact (inner_labelTypes label).bind inner_leaveFor
  | brIf label =>
    exact (inner_innermost (Operate.steady_popExpected _)).bind fun _ =>
      (inner_labelTypes label).bind fun _ => inner_innermost (Operate.steady_apply _)
  | brTable labels default =>
    exact (inner_innermost (Operate.steady_popExpected _)).bind fun _ =>
      (inner_labelTypes default).bind fun types =>
        (inner_tableLabels default types.length labels).bind fun _ => inner_leaveFor types
  | return_ =>
    show (returnFrom Γ).Inner
    unfold returnFrom
    split
    · exact fun _ _ _ _ _ done => (nomatch done)
    · exact inner_leaveFor _
  | refIsNull => exact inner_innermost Operate.steady_refIsNull
  | drop => exact (inner_innermost Operate.steady_pop).bind fun _ => inner_lift (.ok ())
  | select => exact inner_innermost Operate.steady_select
  | plain op => exact (inner_lift _).bind fun type => inner_innermost (Operate.steady_apply type)

/-! ## Code that is reached -/

variable {Γ : Scope} {f : Frame} {outer : List Frame} {given : List Slot} {c' : Checker} {i : Leaf}
  {held : List ValueType}

theorem leaveFor_ok_iff {types : List ValueType} :
    (innermost do let _ ← Operate.popAll types; Operate.markUnreachable) ⟨f :: outer, given⟩ = .ok () c' ↔
      ∃ slots f', Operate.popAll types f = .ok slots f' ∧
        c' = ⟨{ f' with operands := [], unreachable := true } :: outer, given⟩ := by
  simp only [innermost_ok_iff, Outcome.bind_ok_iff]
  constructor
  · rintro ⟨_, ⟨slots, f', done, ⟨⟩⟩, rfl⟩
    exact ⟨slots, f', done, rfl⟩
  · rintro ⟨slots, f', done, rfl⟩
    exact ⟨_, ⟨slots, f', done, rfl⟩, rfl⟩

theorem branch_ok_iff {label : UInt32} :
    branch label ⟨f :: outer, given⟩ = .ok () c' ↔
      ∃ types slots f', (labels (f :: outer))[label.toNat]? = some types ∧
        Operate.popAll types f = .ok slots f' ∧
        c' = ⟨{ f' with operands := [], unreachable := true } :: outer, given⟩ := by
  simp only [branch, Outcome.bind_ok_iff, labelTypes_ok_iff]
  constructor
  · rintro ⟨types, _, ⟨target, rfl⟩, left⟩
    obtain ⟨slots, f', done, rfl⟩ := leaveFor_ok_iff.mp left
    exact ⟨types, slots, f', target, done, rfl⟩
  · rintro ⟨types, slots, f', target, done, rfl⟩
    exact ⟨types, _, ⟨target, rfl⟩, leaveFor_ok_iff.mpr ⟨slots, f', done, rfl⟩⟩

theorem apply_ok_iff {type : FuncType} {u : Unit} :
    innermost (Operate.apply type) ⟨f :: outer, given⟩ = .ok u c' ↔
      ∃ slots f', Operate.popAll type.params f = .ok slots f' ∧
        c' = ⟨f'.receive type.results :: outer, given⟩ := by
  simp only [innermost_ok_iff, Operate.apply, Outcome.bind_ok_iff]
  constructor
  · rintro ⟨_, ⟨slots, f', done, ⟨⟩⟩, rfl⟩
    exact ⟨slots, f', done, rfl⟩
  · rintro ⟨slots, f', done, rfl⟩
    exact ⟨_, ⟨slots, f', done, rfl⟩, rfl⟩

theorem branchIf_ok_iff {label : UInt32} :
    branchIf label ⟨f :: outer, given⟩ = .ok () c' ↔
      ∃ condition f₁ types slots f', Operate.popExpected .i32 f = .ok condition f₁ ∧
        (labels (f :: outer))[label.toNat]? = some types ∧ Operate.popAll types f₁ = .ok slots f' ∧
        c' = ⟨f'.receive types :: outer, given⟩ := by
  simp only [branchIf, Outcome.bind_ok_iff, labelTypes_ok_iff]
  constructor
  · rintro ⟨condition, _, tested, types, _, ⟨target, rfl⟩, applied⟩
    obtain ⟨f₁, top, rfl⟩ := innermost_ok_iff.mp tested
    obtain ⟨slots, f', done, rfl⟩ := apply_ok_iff.mp applied
    rw [labels_of_becomes outer (Operate.steady_popExpected _ top)] at target
    exact ⟨condition, f₁, types, slots, f', top, target, done, rfl⟩
  · rintro ⟨condition, f₁, types, slots, f', top, target, done, rfl⟩
    rw [← labels_of_becomes outer (Operate.steady_popExpected _ top)] at target
    exact ⟨condition, _, innermost_ok_iff.mpr ⟨f₁, top, rfl⟩, types, _, ⟨target, rfl⟩,
      apply_ok_iff.mpr ⟨slots, f', done, rfl⟩⟩

theorem branchTable_ok_iff {targets : List UInt32} {default : UInt32} :
    branchTable targets default ⟨f :: outer, given⟩ = .ok () c' ↔
      ∃ choice f₁ types f₂ slots f', Operate.popExpected .i32 f = .ok choice f₁ ∧
        (labels (f :: outer))[default.toNat]? = some types ∧
        tableLabels default types.length targets ⟨f₁ :: outer, given⟩ = .ok () ⟨f₂ :: outer, given⟩ ∧
        Operate.popAll types f₂ = .ok slots f' ∧
        c' = ⟨{ f' with operands := [], unreachable := true } :: outer, given⟩ := by
  simp only [branchTable, Outcome.bind_ok_iff, labelTypes_ok_iff]
  constructor
  · rintro ⟨choice, _, tested, types, _, ⟨target, rfl⟩, _, _, table, left⟩
    obtain ⟨f₁, top, rfl⟩ := innermost_ok_iff.mp tested
    obtain ⟨f₂, rfl, _⟩ := inner_tableLabels _ _ _ table
    obtain ⟨slots, f', done, rfl⟩ := leaveFor_ok_iff.mp left
    rw [labels_of_becomes outer (Operate.steady_popExpected _ top)] at target
    exact ⟨choice, f₁, types, f₂, slots, f', top, target, table, done, rfl⟩
  · rintro ⟨choice, f₁, types, f₂, slots, f', top, target, table, done, rfl⟩
    rw [← labels_of_becomes outer (Operate.steady_popExpected _ top)] at target
    exact ⟨choice, _, innermost_ok_iff.mpr ⟨f₁, top, rfl⟩, types, _, ⟨target, rfl⟩, (), _, table,
      leaveFor_ok_iff.mpr ⟨slots, f', done, rfl⟩⟩

theorem returnFrom_ok_iff :
    returnFrom Γ ⟨f :: outer, given⟩ = .ok () c' ↔
      ∃ types slots f', Γ.returns = some types ∧ Operate.popAll types f = .ok slots f' ∧
        c' = ⟨{ f' with operands := [], unreachable := true } :: outer, given⟩ := by
  unfold returnFrom
  cases Γ.returns with
  | none => simp
  | some types => simp [leaveFor_ok_iff]

theorem plain_ok_iff {op : Plain} :
    step Γ (.plain op) ⟨f :: outer, given⟩ = .ok () c' ↔
      ∃ (type : FuncType) (slots : List Slot) (f' : Frame), op.HasType Γ type.params type.results ∧
        Operate.popAll type.params f = .ok slots f' ∧
        c' = ⟨f'.receive type.results :: outer, given⟩ := by
  rw [step_eq]
  simp only [instruction, Outcome.bind_ok_iff, Outcome.lift_ok_iff, Scope.signature_ok_iff]
  constructor
  · rintro ⟨type, _, ⟨typed, rfl⟩, applied⟩
    obtain ⟨slots, f', done, rfl⟩ := apply_ok_iff.mp applied
    exact ⟨type, slots, f', typed, done, rfl⟩
  · rintro ⟨type, slots, f', typed, done, rfl⟩
    exact ⟨type, _, ⟨typed, rfl⟩, apply_ok_iff.mpr ⟨slots, f', done, rfl⟩⟩

theorem drop_ok_iff :
    step Γ .drop ⟨f :: outer, given⟩ = .ok () c' ↔
      ∃ s f', Operate.pop f = .ok s f' ∧ c' = ⟨f' :: outer, given⟩ := by
  rw [step_eq]
  simp only [instruction, Outcome.bind_ok_iff, innermost_ok_iff, Outcome.pure_ok_iff, true_and]
  constructor
  · rintro ⟨s, _, ⟨f', popped, rfl⟩, rfl⟩
    exact ⟨s, f', popped, rfl⟩
  · rintro ⟨s, f', popped, rfl⟩
    exact ⟨s, _, ⟨f', popped, rfl⟩, rfl⟩

/-- Behind an instruction that never falls through no code is reached. -/
theorem unreachable_of_leaves (leaves : i.fallsThrough = false)
    (done : step Γ i.instruction ⟨f :: outer, given⟩ = .ok () c') :
    ∃ f', c' = ⟨f' :: outer, given⟩ ∧ f'.unreachable = true := by
  cases i with
  | unreachable => cases done; exact ⟨_, rfl, rfl⟩
  | br label =>
    obtain ⟨_, _, _, _, _, rfl⟩ := branch_ok_iff.mp done
    exact ⟨_, rfl, rfl⟩
  | brTable targets default =>
    obtain ⟨_, _, _, _, _, _, _, _, _, _, rfl⟩ := branchTable_ok_iff.mp done
    exact ⟨_, rfl, rfl⟩
  | return_ =>
    obtain ⟨_, _, _, _, _, rfl⟩ := returnFrom_ok_iff.mp done
    exact ⟨_, rfl, rfl⟩
  | brIf | refIsNull | drop | select | plain => cases leaves

/-- Where code is reached, the labels of a branch table that is accepted find their operands among those held,
which stay as they were. -/
theorem tableLabels_of_holds {default : UInt32} {arity : Nat} {targets : List UInt32} (holds : f.Holds held)
    (done : tableLabels default arity targets ⟨f :: outer, given⟩ = .ok () c') :
    c' = ⟨f :: outer, given⟩ ∧ ∀ label ∈ targets, ∃ types rest,
      (labels (f :: outer))[label.toNat]? = some types ∧ types.length = arity ∧ held = rest ++ types := by
  induction targets with
  | nil => cases done; simp
  | cons label targets ih =>
    unfold tableLabels at done
    split at done
    · cases done
    · rename_i types c found
      obtain ⟨here, rfl⟩ := labelTypes_ok_iff.mp found
      split at done
      · cases done
      · rename_i long
        split at done
        · cases done
        · rename_i put
          obtain ⟨g, acted, rfl⟩ := innermost_ok_iff.mp put
          obtain ⟨rest, rfl, rfl⟩ := Operate.popAll_restore_of_holds holds acted
          obtain ⟨rfl, others⟩ := ih done
          refine ⟨rfl, ?_⟩
          simp only [List.forall_mem_cons]
          exact ⟨⟨types, rest, here, not_not.mp long, rfl⟩, others⟩

/-- Where code is reached, an accepted instruction that never falls through has any type that takes the operands
held. -/
theorem hasType_of_leaves (leaves : i.fallsThrough = false) (holds : f.Holds held)
    (done : step Γ i.instruction ⟨f :: outer, given⟩ = .ok () c') (us : List ValueType) :
    Code.HasType Γ (labels (f :: outer)) (.single i) held us := by
  cases i with
  | unreachable => exact .unreachable held us
  | br label =>
    obtain ⟨types, _, _, target, popped, _⟩ := branch_ok_iff.mp done
    obtain ⟨rest, rfl, _⟩ := Operate.popAll_of_holds holds popped
    exact .br target rest us
  | brTable targets default =>
    obtain ⟨_, f₁, types, f₂, _, _, top, target, table, popped, _⟩ := branchTable_ok_iff.mp done
    obtain ⟨below, rfl, holds₁⟩ := Operate.popExpected_of_holds holds top
    obtain ⟨same, found⟩ := tableLabels_of_holds holds₁ table
    obtain rfl : f₂ = f₁ := by simpa using same
    obtain ⟨rest, rfl, _⟩ := Operate.popAll_of_holds holds₁ popped
    refine .brTable ?_ rest us
    simp only [List.mem_append, List.mem_singleton]
    rintro label (listed | rfl)
    · obtain ⟨others, rest', here, long, split⟩ := found label listed
      -- lists of one length at the end of the operands held are the same
      obtain ⟨_, rfl⟩ := List.append_inj' split long.symm
      rwa [labels_of_becomes outer (Operate.steady_popExpected _ top)] at here
    · exact target
  | return_ =>
    obtain ⟨types, _, _, returns, popped, _⟩ := returnFrom_ok_iff.mp done
    obtain ⟨rest, rfl, _⟩ := Operate.popAll_of_holds holds popped
    exact .return_ returns rest us
  | brIf | refIsNull | drop | select | plain => cases leaves

/-- Where code is reached, an accepted instruction that falls through has a type that takes the operands held and
gives those held next. -/
theorem hasType_of_falls (falls : i.fallsThrough = true) (holds : f.Holds held)
    (done : step Γ i.instruction ⟨f :: outer, given⟩ = .ok () c') :
    ∃ f' us, c' = ⟨f' :: outer, given⟩ ∧ f'.Holds us ∧
      Code.HasType Γ (labels (f :: outer)) (.single i) held us := by
  cases i with
  | brIf label =>
    obtain ⟨_, f₁, types, _, f', top, target, popped, rfl⟩ := branchIf_ok_iff.mp done
    obtain ⟨below, rfl, holds₁⟩ := Operate.popExpected_of_holds holds top
    obtain ⟨rest, rfl, holds', _⟩ := Operate.popAll_of_holds holds₁ popped
    refine ⟨_, _, rfl, holds'.receive types, ?_⟩
    rw [List.append_assoc]
    exact .frame rest (.brIf target)
  | refIsNull =>
    obtain ⟨f', acted, rfl⟩ := innermost_ok_iff.mp done
    obtain ⟨rest, t, rfl, holds'⟩ := Operate.refIsNull_of_holds holds acted
    exact ⟨f', _, rfl, holds', .frame rest (.refIsNull t)⟩
  | drop =>
    obtain ⟨_, f', popped, rfl⟩ := drop_ok_iff.mp done
    obtain ⟨rest, t, rfl, _, holds'⟩ := Operate.pop_of_holds holds popped
    exact ⟨f', rest, rfl, holds', by simpa using Code.HasType.frame rest (.drop t)⟩
  | select =>
    obtain ⟨f', acted, rfl⟩ := innermost_ok_iff.mp done
    obtain ⟨rest, t, simple, rfl, holds'⟩ := Operate.select_of_holds holds acted
    exact ⟨f', _, rfl, holds', .frame rest (.select t simple)⟩
  | plain op =>
    obtain ⟨type, _, f', typed, popped, rfl⟩ := plain_ok_iff.mp done
    obtain ⟨rest, rfl, holds', _⟩ := Operate.popAll_of_holds holds popped
    exact ⟨_, _, rfl, holds'.receive type.results, .frame rest (.plain typed)⟩
  | unreachable | br | brTable | return_ => cases falls

/-! ## Operands that fit -/

/-- Operands that fit the labels of a branch table still fit them when they were popped and put back. -/
theorem tableLabels_of_fits {default : UInt32} {targets : List UInt32} {rest types : List ValueType}
    (fits : f.Fits (rest ++ types))
    (agree : ∀ label ∈ targets, (labels (f :: outer))[label.toNat]? = some types) :
    ∃ ops, tableLabels default types.length targets ⟨f :: outer, given⟩ =
        .ok () ⟨{ f with operands := ops } :: outer, given⟩ ∧
      { f with operands := ops }.Fits (rest ++ types) := by
  induction targets generalizing f with
  | nil => exact ⟨f.operands, rfl, fits⟩
  | cons label targets ih =>
    obtain ⟨here, others⟩ := List.forall_mem_cons.mp agree
    obtain ⟨slots, ops, popped, above, below⟩ := Operate.popAll_of_fits fits
    have refit : { f with operands := slots.reverse ++ ops }.Fits (rest ++ types) := by
      unfold Frame.Fits at below ⊢
      rw [List.reverse_append]
      exact Slot.allFit_append above below
    obtain ⟨ops', table, fits'⟩ := ih (f := { f with operands := slots.reverse ++ ops }) refit others
    refine ⟨ops', ?_, fits'⟩
    have found : labelTypes label ⟨f :: outer, given⟩ = .ok types ⟨f :: outer, given⟩ :=
      labelTypes_ok_iff.mpr ⟨here, rfl⟩
    have put : innermost (Operate.popAll types >>= Operate.restore) ⟨f :: outer, given⟩ =
        .ok () ⟨{ f with operands := slots.reverse ++ ops } :: outer, given⟩ := by
      refine innermost_ok_iff.mpr ⟨_, Outcome.bind_ok_iff.mpr ⟨slots, _, popped, ?_⟩, rfl⟩
      simp [Operate.restore]
    unfold tableLabels
    simp only [found, put, ne_eq, not_true_eq_false, if_false]
    exact table

/-- Taking operands that fit and going elsewhere leaves nothing to fit. -/
theorem leaves_of_fits {rest types us : List ValueType} (fits : f.Fits (rest ++ types)) :
    ∃ slots f', Operate.popAll types f = .ok slots f' ∧
      { f' with operands := [], unreachable := true }.Fits us := by
  obtain ⟨slots, ops, popped, _, _⟩ := Operate.popAll_of_fits fits
  exact ⟨slots, _, popped, Frame.fits_dead us rfl rfl⟩

/-- Taking operands that fit and giving others. -/
theorem receives_of_fits {rest types : List ValueType} (us : List ValueType) (fits : f.Fits (rest ++ types)) :
    ∃ slots f', Operate.popAll types f = .ok slots f' ∧ (f'.receive us).Fits (rest ++ us) := by
  obtain ⟨slots, ops, popped, _, below⟩ := Operate.popAll_of_fits fits
  exact ⟨slots, _, popped, Frame.fits_stacked.mpr ⟨rest, rfl, below⟩⟩

end Check

end Wasm
