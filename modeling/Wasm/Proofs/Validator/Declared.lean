import Wasm.Types.Check
import Wasm.Proofs.Typing.Signature

/-! # Legal declarations

When a declaration is legal, said of its tags and bounds, and the type that a declaration means. The checks of
declarations accept the legal ones and find the types they mean.
-/

namespace Wasm

namespace FuncDecl

/-- The type that a declaration means, if its tags are legal. -/
def type? (d : FuncDecl) : Option FuncType := do
  let params ← d.params.mapM ValueType.ofTag?
  let results ← d.results.mapM ValueType.ofTag?
  pure ⟨params, results⟩

/-- All tags name value types. -/
def Legal (d : FuncDecl) : Prop := ∀ tag ∈ d.params ++ d.results, (ValueType.ofTag? tag).isSome

end FuncDecl

/-- Neither bound exceeds a ceiling, and the lower one is not above the upper. -/
def Limits.Within (l : Limits) (ceiling : Nat) : Prop :=
  l.min.toNat ≤ ceiling ∧ ∀ max ∈ l.max, max.toNat ≤ ceiling ∧ l.min ≤ max

namespace TableDecl

def type? (d : TableDecl) : Option TableType := (RefType.ofTag? d.tag).map fun element => ⟨element, d.limits⟩

/-- A reference tag, and fewer than 2^32 entries. -/
def Legal (d : TableDecl) : Prop := (RefType.ofTag? d.tag).isSome ∧ d.limits.Within (2 ^ 32 - 1)

end TableDecl

/-- Memories have at most 65536 pages. -/
def Limits.LegalMemory (l : Limits) : Prop := l.Within 65536

namespace GlobalDecl

def type? (d : GlobalDecl) : Option GlobalType :=
  match d.mutability with
  | 0x00 => (ValueType.ofTag? d.tag).map fun value => ⟨value, false⟩
  | 0x01 => (ValueType.ofTag? d.tag).map fun value => ⟨value, true⟩
  | _ => none

/-- A value tag, and one of two mutabilities. -/
def Legal (d : GlobalDecl) : Prop :=
  (ValueType.ofTag? d.tag).isSome ∧ (d.mutability = 0x00 ∨ d.mutability = 0x01)

end GlobalDecl

/-! ## Checks -/

theorem ValueType.checkAll_ok_iff {tags : List UInt8} {types : List ValueType} :
    checkAll tags = .ok types ↔ tags.mapM ofTag? = some types := by
  induction tags generalizing types with
  | nil => simp [checkAll]
  | cons tag tags ih =>
    simp only [checkAll, Verdict.bind_ok_iff, check_ok_iff, Verdict.pure_ok_iff, ih, List.mapM_cons,
      ← ofTag?_some_iff]
    simp [Option.bind_eq_some_iff]

theorem FuncDecl.check_ok_iff {d : FuncDecl} {type : FuncType} : d.check = .ok type ↔ d.type? = some type := by
  simp only [check, type?, Verdict.bind_ok_iff, ValueType.checkAll_ok_iff, Verdict.pure_ok_iff]
  simp [Option.bind_eq_some_iff]

/-- Tags are all legal when they mean types together. -/
theorem ValueType.ofTags_isSome_iff {tags : List UInt8} :
    (∀ tag ∈ tags, (ofTag? tag).isSome) ↔ (tags.mapM ofTag?).isSome := by
  induction tags with
  | nil => simp
  | cons tag tags ih =>
    rw [List.forall_mem_cons, ih, List.mapM_cons]
    cases ofTag? tag <;> cases tags.mapM ofTag? <;> simp

theorem FuncDecl.legal_iff {d : FuncDecl} : d.Legal ↔ d.type?.isSome := by
  unfold Legal type?
  rw [List.forall_mem_append, ValueType.ofTags_isSome_iff, ValueType.ofTags_isSome_iff]
  cases d.params.mapM ValueType.ofTag? <;> cases d.results.mapM ValueType.ofTag? <;> simp

theorem Limits.check_ok_iff {sized : Sized} {l : Limits} {u : Unit} :
    l.check sized = .ok u ↔ l.Within sized.ceiling.toNat := by
  obtain ⟨min, max⟩ := l
  cases max with
  | none =>
    simp only [check, Within, UInt64.lt_iff_toNat_lt, Option.mem_def, reduceCtorEq, false_implies, implies_true,
      and_true]
    split
    · exact iff_of_false nofun (by omega)
    · exact iff_of_true rfl (by omega)
  | some max =>
    simp only [check, Within, UInt64.lt_iff_toNat_lt, UInt64.le_iff_toNat_le, Option.mem_def, Option.some.injEq,
      forall_eq']
    split
    · exact iff_of_false nofun (by omega)
    · split
      · exact iff_of_false nofun (by omega)
      · split
        · exact iff_of_false nofun (by omega)
        · exact iff_of_true rfl (by omega)

theorem TableDecl.check_ok_iff {d : TableDecl} {type : TableType} :
    d.check = .ok type ↔ d.limits.Within (2 ^ 32 - 1) ∧ d.type? = some type := by
  simp only [check, type?, Verdict.bind_ok_iff, Limits.check_ok_iff, RefType.check_ok_iff, Verdict.pure_ok_iff,
    exists_const, Option.map_eq_some_iff, RefType.ofTag?_some_iff]
  rfl

theorem TableDecl.legal_iff {d : TableDecl} : d.Legal ↔ d.limits.Within (2 ^ 32 - 1) ∧ d.type?.isSome := by
  unfold Legal type?
  rw [Option.isSome_map, and_comm]

theorem GlobalDecl.check_ok_iff {d : GlobalDecl} {type : GlobalType} :
    d.check = .ok type ↔ d.type? = some type := by
  unfold check type?
  simp only [Verdict.bind_ok_iff, ValueType.check_ok_iff, ← ValueType.ofTag?_some_iff]
  split <;> simp_all

theorem GlobalDecl.legal_iff {d : GlobalDecl} : d.Legal ↔ d.type?.isSome := by
  unfold Legal type?
  split <;> simp_all

end Wasm
