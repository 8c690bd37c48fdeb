import Wasm.Typing.Frame
import Wasm.Proofs.Outcome

/-! # Operands and the types they stand for

An operand of known type stands for values of that type, one of unknown type for any value. The operands of a
frame *fit* a list of types when they can stand for such values, in order; in code that is never reached there
may be any number of further values below them.

Popping the operands that a list of types calls for succeeds on a frame that fits them. Where code is reached
the converse holds too: what was popped fitted the types.
-/

namespace Wasm

/-- Whether an operand can stand for a value of a type. -/
def Slot.Fits : Slot → ValueType → Prop
  | .known t, u => t = u
  | .unknown, _ => True

/-- Whether operands can stand for values of the given types, both with the top one first. -/
def Slot.AllFit (dead : Bool) : List Slot → List ValueType → Prop
  | [], types => dead = true ∨ types = []
  | _ :: _, [] => False
  | s :: slots, t :: types => s.Fits t ∧ AllFit dead slots types

namespace Frame

/-- Whether the operands of a frame can stand for values of the given types, the bottom one first. -/
def Fits (f : Frame) (types : List ValueType) : Prop :=
  Slot.AllFit f.unreachable f.operands types.reverse

/-- What may become of a frame while its block is open: code that is not reached stays so. -/
def Becomes (f later : Frame) : Prop :=
  later.kind = f.kind ∧ later.startTypes = f.startTypes ∧ later.endTypes = f.endTypes ∧
    (f.unreachable = true → later.unreachable = true)

theorem Becomes.refl (f : Frame) : f.Becomes f := ⟨rfl, rfl, rfl, id⟩

theorem Becomes.trans {a b c : Frame} (first : a.Becomes b) (second : b.Becomes c) : a.Becomes c := by
  obtain ⟨kind, starts, ends, dead⟩ := first
  obtain ⟨kind', starts', ends', dead'⟩ := second
  exact ⟨kind'.trans kind, starts'.trans starts, ends'.trans ends, dead' ∘ dead⟩

theorem Becomes.operands (f : Frame) (ops : List Slot) : f.Becomes { f with operands := ops } :=
  ⟨rfl, rfl, rfl, id⟩

theorem Becomes.labelTypes {a b : Frame} (h : a.Becomes b) : b.labelTypes = a.labelTypes := by
  obtain ⟨kind, starts, ends, _⟩ := h
  simp only [Frame.labelTypes, kind, starts, ends]

theorem stacked_eq (types : List ValueType) (below : List Slot) :
    stacked types below = types.reverse.map .known ++ below := by
  unfold stacked
  induction types generalizing below with
  | nil => rfl
  | cons t types ih => simp [List.foldl_cons, ih]

end Frame

namespace Slot

theorem Fits.isNum {s : Slot} {t : ValueType} (fits : s.Fits t) (num : t.isNum) : s.isNum := by
  cases s with
  | unknown => rfl
  | known u => exact (show u = t from fits) ▸ num

theorem Fits.isVec {s : Slot} {t : ValueType} (fits : s.Fits t) (vec : t.isVec) : s.isVec := by
  cases s with
  | unknown => rfl
  | known u => exact (show u = t from fits) ▸ vec

theorem Fits.isRef {s : Slot} {t : ValueType} (fits : s.Fits t) (ref : t.isRef) : s.isRef := by
  cases s with
  | unknown => rfl
  | known u => exact (show u = t from fits) ▸ ref

theorem allFit_append {dead : Bool} {slots ops : List Slot} {types rest : List ValueType}
    (above : List.Forall₂ Fits slots types) (below : AllFit dead ops rest) :
    AllFit dead (slots ++ ops) (types ++ rest) := by
  induction above with
  | nil => exact below
  | cons head _ ih => exact ⟨head, ih⟩

theorem allFit_known {dead : Bool} {types : List ValueType} {ops : List Slot} {all : List ValueType} :
    AllFit dead (types.map .known ++ ops) all ↔ ∃ rest, all = types ++ rest ∧ AllFit dead ops rest := by
  induction types generalizing all with
  | nil => simp
  | cons t types ih =>
    cases all with
    | nil => simp [AllFit]
    | cons u all =>
      simp only [List.map_cons, List.cons_append, AllFit, Fits, ih, List.cons.injEq]
      constructor
      · rintro ⟨rfl, rest, rfl, below⟩
        exact ⟨rest, ⟨rfl, rfl⟩, below⟩
      · rintro ⟨rest, ⟨rfl, rfl⟩, below⟩
        exact ⟨rfl, rest, rfl, below⟩

theorem allFit_nil {dead : Bool} {slots : List Slot} : AllFit dead slots [] ↔ slots = [] := by
  cases slots <;> simp [AllFit]

end Slot

namespace Frame

/-- Operands pushed above those of a frame fit the types they were pushed for. -/
theorem fits_stacked {f : Frame} {types all : List ValueType} :
    { f with operands := stacked types f.operands }.Fits all ↔ ∃ rest, all = rest ++ types ∧ f.Fits rest := by
  simp only [Fits, stacked_eq, Slot.allFit_known]
  constructor
  · rintro ⟨rest, equal, below⟩
    refine ⟨rest.reverse, ?_, by simpa using below⟩
    rw [← List.reverse_reverse all, equal]
    simp
  · rintro ⟨rest, rfl, below⟩
    exact ⟨rest.reverse, by simp, below⟩

theorem fits_enter {kind : FrameKind} {type : FuncType} {types : List ValueType} :
    (enter kind type).Fits types ↔ types = type.params := by
  simp only [Fits, enter, stacked_eq, Slot.allFit_known, Slot.AllFit, Bool.false_eq_true, false_or]
  constructor
  · rintro ⟨rest, equal, rfl⟩
    simpa using equal
  · rintro rfl
    exact ⟨[], by simp, rfl⟩

/-- Nothing is asked of the operands that dead code has not pushed. -/
theorem fits_dead {f : Frame} (types : List ValueType) (dead : f.unreachable = true)
    (bare : f.operands = []) : f.Fits types := by
  unfold Fits
  rw [bare]
  exact .inl dead

end Frame

namespace Operate

/-- An operand comes from the frame, or from below it where code is not reached. -/
theorem pop_cases {f f' : Frame} {s : Slot} (popped : pop f = .ok s f') :
    (∃ ops, f.operands = s :: ops ∧ f' = { f with operands := ops }) ∨
      (f.operands = [] ∧ f.unreachable = true ∧ s = .unknown ∧ f' = f) := by
  unfold pop at popped
  split at popped
  · rename_i ops own
    cases popped
    exact .inl ⟨ops, own, rfl⟩
  · rename_i own
    split at popped
    · rename_i dead
      cases popped
      exact .inr ⟨own, dead, rfl, rfl⟩
    · cases popped

theorem pop_of_fits {f : Frame} {t : ValueType} {rest : List ValueType}
    (fits : Slot.AllFit f.unreachable f.operands (t :: rest)) :
    ∃ s ops, pop f = .ok s { f with operands := ops } ∧ s.Fits t ∧ Slot.AllFit f.unreachable ops rest := by
  obtain ⟨kind, starts, ends, operands, dead⟩ := f
  cases operands with
  | nil =>
    obtain rfl : dead = true := by simpa [Slot.AllFit] using fits
    exact ⟨.unknown, [], rfl, trivial, .inl rfl⟩
  | cons s ops => exact ⟨s, ops, rfl, fits.1, fits.2⟩

/-- Popping an operand of a type pops it, whatever its type may be. -/
theorem pop_of_popExpected {f f' : Frame} {t : ValueType} {s : Slot}
    (popped : popExpected t f = .ok s f') : pop f = .ok s f' := by
  unfold popExpected at popped
  split at popped
  · cases popped
  · cases popped; assumption
  · split at popped
    · cases popped
    · cases popped; assumption

theorem popExpected_live {f f' : Frame} {t : ValueType} {s : Slot} (live : f.unreachable = false)
    (popped : popExpected t f = .ok s f') :
    ∃ ops, f.operands = s :: ops ∧ f' = { f with operands := ops } ∧ s.Fits t := by
  obtain ⟨ops, own, rfl⟩ | ⟨_, dead, _⟩ := pop_cases (pop_of_popExpected popped)
  · refine ⟨ops, own, rfl, ?_⟩
    cases s with
    | unknown => trivial
    | known u =>
      have top : pop f = .ok (.known u) { f with operands := ops } := pop_of_popExpected popped
      simp only [popExpected, top, live, and_true] at popped
      split at popped
      · cases popped
      · rename_i same
        exact not_not.mp same
  · rw [live] at dead
    cases dead

theorem popExpected_of_fits {f : Frame} {t : ValueType} {rest : List ValueType}
    (fits : Slot.AllFit f.unreachable f.operands (t :: rest)) :
    ∃ s ops, popExpected t f = .ok s { f with operands := ops } ∧ s.Fits t ∧
      Slot.AllFit f.unreachable ops rest := by
  obtain ⟨s, ops, top, head, below⟩ := pop_of_fits fits
  refine ⟨s, ops, ?_, head, below⟩
  cases s with
  | unknown => simp [popExpected, top]
  | known u =>
    obtain rfl : u = t := head
    simp [popExpected, top]

theorem popOnto_becomes {types : List ValueType} {popped slots : List Slot} {f f' : Frame}
    (done : popOnto types popped f = .ok slots f') : ∃ ops, f' = { f with operands := ops } := by
  induction types generalizing popped f with
  | nil => cases done; exact ⟨_, rfl⟩
  | cons t types ih =>
    unfold popOnto at done
    split at done
    · rename_i s f₁ top
      obtain ⟨ops, rfl⟩ := ih done
      obtain ⟨_, _, rfl⟩ | ⟨_, _, _, rfl⟩ := pop_cases (pop_of_popExpected top)
      · exact ⟨ops, rfl⟩
      · exact ⟨ops, rfl⟩
    · cases done

/-- In code that is reached, the operands popped are the frame's own and fit the types. -/
theorem popOnto_live {types : List ValueType} {popped slots : List Slot} {f f' : Frame}
    (live : f.unreachable = false) (done : popOnto types popped f = .ok slots f') :
    ∃ own ops, f.operands = own ++ ops ∧ f' = { f with operands := ops } ∧
      slots = own.reverse ++ popped ∧ List.Forall₂ Slot.Fits own types := by
  induction types generalizing popped f with
  | nil => cases done; exact ⟨[], _, rfl, rfl, rfl, .nil⟩
  | cons t types ih =>
    unfold popOnto at done
    split at done
    · rename_i s f₁ top
      obtain ⟨ops, own, rfl, head⟩ := popExpected_live live top
      obtain ⟨more, ops', own', rfl, rfl, fit⟩ := ih (f := { f with operands := ops }) live done
      refine ⟨s :: more, ops', ?_, rfl, by simp, .cons head fit⟩
      rw [own, List.cons_append]
      exact congrArg _ own'
    · cases done

theorem popOnto_of_fits {types rest : List ValueType} (popped : List Slot) {f : Frame}
    (fits : Slot.AllFit f.unreachable f.operands (types ++ rest)) :
    ∃ slots ops, popOnto types popped f = .ok (slots.reverse ++ popped) { f with operands := ops } ∧
      List.Forall₂ Slot.Fits slots types ∧ Slot.AllFit f.unreachable ops rest := by
  induction types generalizing popped f with
  | nil => exact ⟨[], f.operands, rfl, .nil, fits⟩
  | cons t types ih =>
    obtain ⟨s, ops, top, head, below⟩ := popExpected_of_fits fits
    obtain ⟨slots, ops', done, fit, below'⟩ := ih (s :: popped) (f := { f with operands := ops }) below
    refine ⟨s :: slots, ops', ?_, .cons head fit, below'⟩
    unfold popOnto
    simp only [top]
    simpa using done

/-- Popping what a frame fits succeeds and leaves what it fits below. -/
theorem popAll_of_fits {f : Frame} {rest types : List ValueType} (fits : f.Fits (rest ++ types)) :
    ∃ slots ops, popAll types f = .ok slots { f with operands := ops } ∧
      List.Forall₂ Slot.Fits slots.reverse types.reverse ∧ { f with operands := ops }.Fits rest := by
  unfold Frame.Fits at fits
  rw [List.reverse_append] at fits
  obtain ⟨slots, ops, done, fit, below⟩ := popOnto_of_fits [] fits
  refine ⟨slots.reverse, ops, ?_, by simpa using fit, below⟩
  simpa [popAll] using done

/-- The top operand that a frame fits is popped. -/
theorem popTop_of_fits {f : Frame} {rest : List ValueType} {t : ValueType} (fits : f.Fits (rest ++ [t])) :
    ∃ s ops, pop f = .ok s { f with operands := ops } ∧ popExpected t f = .ok s { f with operands := ops } ∧
      s.Fits t ∧ { f with operands := ops }.Fits rest := by
  unfold Frame.Fits at fits
  rw [List.reverse_append] at fits
  obtain ⟨s, ops, top, head, below⟩ := popExpected_of_fits fits
  exact ⟨s, ops, pop_of_popExpected top, top, head, below⟩

theorem fits_push {f : Frame} {rest : List ValueType} {s : Slot} {t : ValueType} (head : s.Fits t)
    (below : f.Fits rest) : { f with operands := s :: f.operands }.Fits (rest ++ [t]) := by
  unfold Frame.Fits
  rw [List.reverse_append]
  exact ⟨head, below⟩

theorem refIsNull_of_fits {f : Frame} {rest : List ValueType} {t : RefType}
    (fits : f.Fits (rest ++ [.ref t])) :
    ∃ f', refIsNull f = .ok () f' ∧ f'.Fits (rest ++ [.i32]) := by
  obtain ⟨s, ops, popped, _, head, below⟩ := popTop_of_fits fits
  have isRef : s.isRef = true := head.isRef rfl
  refine ⟨_, ?_, fits_push (t := .i32) (s := .known .i32) rfl below⟩
  simp only [refIsNull, Outcome.bind_of_ok popped, isRef, Bool.true_or, if_true]
  rfl

theorem select_of_fits {f : Frame} {rest : List ValueType} {t : ValueType}
    (simple : t = .v128 ∨ ∃ n, t = .num n) (fits : f.Fits (rest ++ [t, t, .i32])) :
    ∃ f', select f = .ok () f' ∧ f'.Fits (rest ++ [t]) := by
  have three : rest ++ [t, t, .i32] = rest ++ [t] ++ [t] ++ [.i32] := by simp
  rw [three] at fits
  obtain ⟨_, ops₁, _, tested, _, fits₁⟩ := popTop_of_fits fits
  obtain ⟨first, ops₂, popped, _, head, fits₂⟩ := popTop_of_fits fits₁
  obtain ⟨second, ops₃, popped', _, head', below⟩ := popTop_of_fits fits₂
  have chosen : (if first = .unknown then second else first).Fits t := by
    split
    · exact head'
    · exact head
  have agree : ¬(first ≠ .unknown ∧ second ≠ .unknown ∧ first ≠ second) := by
    cases first <;> cases second <;> simp_all only [Slot.Fits, ne_eq, not_true_eq_false, and_false,
      false_and, not_false_eq_true]
  have allowed : first.isNum && second.isNum || first.isVec && second.isVec := by
    rcases simple with rfl | ⟨n, rfl⟩
    · simp only [head.isVec rfl, head'.isVec rfl, Bool.and_self, Bool.or_true]
    · simp only [head.isNum rfl, head'.isNum rfl, Bool.and_self, Bool.true_or]
  refine ⟨_, ?_, fits_push chosen below⟩
  simp only [select, Outcome.bind_of_ok tested, Outcome.bind_of_ok popped, Outcome.bind_of_ok popped']
  simp only [agree, allowed, if_true, if_false, ite_self]
  rfl

theorem popAll_becomes {types : List ValueType} {slots : List Slot} {f f' : Frame}
    (done : popAll types f = .ok slots f') : ∃ ops, f' = { f with operands := ops } :=
  popOnto_becomes done

/-- In code that is reached, a frame that gave up operands fitted their types. -/
theorem fits_of_popAll {f f' : Frame} {types rest : List ValueType} {slots : List Slot}
    (live : f.unreachable = false) (done : popAll types f = .ok slots f') (below : f'.Fits rest) :
    f.Fits (rest ++ types) := by
  obtain ⟨own, ops, split, rfl, _, fit⟩ := popOnto_live live done
  unfold Frame.Fits at below ⊢
  rw [split, List.reverse_append]
  exact Slot.allFit_append fit below

end Operate

/-- Code is reached with operands of exactly the given types, the bottom one first. -/
def Frame.Holds (f : Frame) (types : List ValueType) : Prop :=
  f.unreachable = false ∧ f.operands = stacked types []

namespace Frame

theorem holds_enter (kind : FrameKind) (type : FuncType) : (enter kind type).Holds type.params :=
  ⟨rfl, rfl⟩

theorem Holds.fits_iff {f : Frame} {types others : List ValueType} (held : f.Holds types) :
    f.Fits others ↔ others = types := by
  obtain ⟨live, own⟩ := held
  simp only [Fits, own, live, stacked_eq, Slot.allFit_known, Slot.AllFit, Bool.false_eq_true, false_or]
  constructor
  · rintro ⟨rest, equal, rfl⟩
    simpa using equal
  · rintro rfl
    exact ⟨[], by simp, rfl⟩

/-- Any part of the operands that lies at the bottom is of known types too. -/
theorem Holds.below {f : Frame} {types : List ValueType} {above ops : List Slot} (held : f.Holds types)
    (own : f.operands = above ++ ops) : ∃ rest, { f with operands := ops }.Holds rest := by
  obtain ⟨live, known⟩ := held
  rw [own, stacked_eq, List.append_nil] at known
  obtain ⟨tops, rest, _, _, rfl⟩ := List.append_eq_map_iff.mp known
  exact ⟨rest.reverse, live, by simp [stacked_eq]⟩

theorem Holds.stacked {f : Frame} {rest : List ValueType} (held : f.Holds rest) (types : List ValueType) :
    { f with operands := Frame.stacked types f.operands }.Holds (rest ++ types) := by
  obtain ⟨live, known⟩ := held
  exact ⟨live, by simp [known, stacked_eq]⟩

end Frame

namespace Operate

variable {f f' : Frame} {held : List ValueType}

theorem pop_of_holds {s : Slot} (holds : f.Holds held) (popped : pop f = .ok s f') :
    ∃ rest t, held = rest ++ [t] ∧ s = .known t ∧ f'.Holds rest := by
  obtain ⟨ops, own, rfl⟩ | ⟨_, dead, _⟩ := pop_cases popped
  · obtain ⟨live, known⟩ := holds
    rw [own, Frame.stacked_eq, List.append_nil] at known
    cases top : held.reverse with
    | nil => simp [top] at known
    | cons t types =>
      have split : held = types.reverse ++ [t] := by
        rw [← List.reverse_reverse held, top, List.reverse_cons]
      rw [top, List.map_cons, List.cons.injEq] at known
      obtain ⟨rfl, rfl⟩ := known
      exact ⟨types.reverse, t, split, rfl, live, by simp [Frame.stacked_eq]⟩
  · rw [holds.1] at dead
    cases dead

theorem popExpected_of_holds {t : ValueType} {s : Slot} (holds : f.Holds held)
    (popped : popExpected t f = .ok s f') : ∃ rest, held = rest ++ [t] ∧ f'.Holds rest := by
  obtain ⟨rest, u, split, rfl, below⟩ := pop_of_holds holds (pop_of_popExpected popped)
  obtain ⟨_, _, _, rfl⟩ := popExpected_live holds.1 popped
  exact ⟨rest, split, below⟩

/-- Popping takes the topmost operands held, which come back as they were. -/
theorem popAll_of_holds {types : List ValueType} {slots : List Slot} (holds : f.Holds held)
    (done : popAll types f = .ok slots f') :
    ∃ rest, held = rest ++ types ∧ f'.Holds rest ∧ slots = types.map .known := by
  obtain ⟨own, ops, split, rfl, rfl, fit⟩ := popOnto_live holds.1 done
  obtain ⟨rest, below⟩ := holds.below split
  have all : f.Fits (rest ++ types) := fits_of_popAll holds.1 done (below.fits_iff.mpr rfl)
  obtain rfl := holds.fits_iff.mp all
  have own_eq : own = types.reverse.map .known := by
    have bottom : ops = Frame.stacked rest [] := below.2
    have parts := split.symm.trans holds.2
    rw [bottom, Frame.stacked_eq, Frame.stacked_eq, List.reverse_append, List.map_append,
      List.append_assoc] at parts
    exact List.append_cancel_right parts
  exact ⟨rest, rfl, below, by simp [own_eq]⟩

/-- Operands that are popped and put back are found as they were. -/
theorem popAll_restore_of_holds {types : List ValueType} {u : Unit} (holds : f.Holds held)
    (done : (popAll types >>= restore) f = .ok u f') : ∃ rest, held = rest ++ types ∧ f' = f := by
  obtain ⟨slots, g, popped, ⟨⟩⟩ := Outcome.bind_ok_iff.mp done
  obtain ⟨rest, rfl, below, rfl⟩ := popAll_of_holds holds popped
  obtain ⟨ops, rfl⟩ := popAll_becomes popped
  have bottom : ops = Frame.stacked rest [] := below.2
  have whole : (types.map Slot.known).reverseAux ops = f.operands := by
    simp [holds.2, bottom, Frame.stacked_eq]
  exact ⟨rest, rfl, by rw [whole]⟩

theorem refIsNull_of_holds {u : Unit} (holds : f.Holds held) (done : refIsNull f = .ok u f') :
    ∃ rest t, held = rest ++ [.ref t] ∧ f'.Holds (rest ++ [.i32]) := by
  simp only [refIsNull, Outcome.bind_ok_iff] at done
  obtain ⟨operand, g, popped, dead, _, ⟨⟩, acted⟩ := done
  obtain ⟨rest, t, rfl, rfl, below⟩ := pop_of_holds holds popped
  rw [below.1, Bool.or_false] at acted
  split at acted
  · rename_i isRef
    cases t <;> simp [Slot.isRef, ValueType.isRef] at isRef
    cases acted
    exact ⟨rest, _, rfl, below.stacked [.i32]⟩
  · cases acted

theorem select_of_holds {u : Unit} (holds : f.Holds held) (done : select f = .ok u f') :
    ∃ rest t, (t = .v128 ∨ ∃ n, t = .num n) ∧ held = rest ++ [t, t, .i32] ∧ f'.Holds (rest ++ [t]) := by
  simp only [select, Outcome.bind_ok_iff] at done
  obtain ⟨_, g₁, tested, _, g₂, popped, _, g₃, popped', dead, _, ⟨⟩, acted⟩ := done
  obtain ⟨below₁, rfl, holds₁⟩ := popExpected_of_holds holds tested
  obtain ⟨below₂, t, rfl, rfl, holds₂⟩ := pop_of_holds holds₁ popped
  obtain ⟨below₃, t', rfl, rfl, holds₃⟩ := pop_of_holds holds₂ popped'
  rw [holds₃.1] at acted
  simp only [Bool.false_eq_true, if_false, reduceCtorEq, ne_eq, not_false_eq_true, true_and] at acted
  split at acted
  · cases acted
  · rename_i same
    obtain rfl : t = t' := by simpa using same
    split at acted
    · rename_i simple
      cases acted
      refine ⟨below₃, t, ?_, by simp, holds₃.stacked [t]⟩
      cases t <;> simp [Slot.isNum, Slot.isVec, ValueType.isNum, ValueType.isVec] at simple ⊢
    · cases acted

end Operate

end Wasm
