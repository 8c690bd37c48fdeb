import Wasm.Proofs.Typing.Constants
import Wasm.Proofs.Typing.Moves

/-! # References of constant expressions

The functions that a constant expression references count as declared. They are collected while its instructions are
admitted, before these are type checked, so they are collected even from an expression that is rejected in the end. All
of them exist; and an expression that is accepted is one constant and its end, so it adds one function at most.
-/

namespace Wasm

open Outcome

namespace FuncRefs

theorem mem_insert_iff {refs : FuncRefs} {func other : UInt32} : other ∈ refs.insert func ↔ other = func ∨ other ∈ refs := by
  rw [Std.TreeSet.mem_insert, Std.LawfulEqOrd.compare_eq_iff_eq, eq_comm]

theorem mem_declaring_iff {refs : FuncRefs} {funcs : List UInt32} {func : UInt32} :
    func ∈ declaring refs funcs ↔ func ∈ funcs ∨ func ∈ refs := by
  induction funcs generalizing refs with
  | nil => simp [declaring]
  | cons first funcs ih =>
    have next : declaring refs (first :: funcs) = declaring (refs.insert first) funcs := rfl
    rw [next, ih, mem_insert_iff, List.mem_cons, or_left_comm, or_assoc]

end FuncRefs

/-- References that were added to others, all of them to functions that exist. -/
structure IndexSpace.Declares (C : IndexSpace) (refs refs' : FuncRefs) : Prop where
  kept : ∀ func ∈ refs, func ∈ refs'
  known : ∀ func ∈ refs', func ∈ refs ∨ ∃ type, C.HasFunction func type

namespace IndexSpace.Declares

variable {C : IndexSpace} {refs refs' refs'' : FuncRefs}

theorem refl (refs : FuncRefs) : C.Declares refs refs := ⟨fun _ => id, fun _ => .inl⟩

theorem trans (first : C.Declares refs refs') (second : C.Declares refs' refs'') : C.Declares refs refs'' where
  kept func member := second.kept func (first.kept func member)
  known func member := (second.known func member).elim (first.known func) .inr

theorem insert {func : UInt32} {type : FuncType} (found : C.HasFunction func type) : C.Declares refs (refs.insert func) where
  kept other member := FuncRefs.mem_insert_iff.mpr (.inr member)
  known other member := by
    rcases FuncRefs.mem_insert_iff.mp member with rfl | member
    · exact .inr ⟨type, found⟩
    · exact .inl member

end IndexSpace.Declares

/-- The functions that an admitted instruction adds are those of the scope. -/
theorem Scope.declares_of_permit {Γ : Scope} {i : Instruction} {refs refs' : FuncRefs}
    (permitted : Γ.permit i refs = .ok refs') : Γ.space.Declares refs refs' := by
  unfold Scope.permit at permitted
  split at permitted
  · cases permitted
  · split at permitted
    · obtain ⟨type, found, done⟩ := Verdict.bind_ok_iff.mp permitted
      cases done
      exact .insert (IndexSpace.function_ok_iff.mp found)
    · obtain ⟨g, -, done⟩ := Verdict.bind_ok_iff.mp permitted
      split at done
      · cases done
      · cases done
        exact .refl refs
    · cases permitted
      exact .refl refs

namespace ConstantExpr

variable {Γ : Scope}

/-- Accepted or not, an instruction adds no references but to functions that exist. -/
theorem declares_step (i : Instruction) (e : ConstantExpr) : Γ.space.Declares e.refs (left (step Γ i e)).refs := by
  unfold step
  cases permitted : Γ.permit i e.refs with
  | error v => exact .refl e.refs
  | ok refs =>
    have declares := Scope.declares_of_permit permitted
    dsimp only
    cases Check.step Γ i e.checker with
    | ok u c => exact declares
    | error v c => exact declares

theorem refs_finish (e : ConstantExpr) : (left (finish e)).refs = e.refs := by
  unfold finish
  cases Check.finish e.checker <;> rfl

theorem declares_all (is : List Instruction) (e : ConstantExpr) : Γ.space.Declares e.refs (left (all Γ is e)).refs := by
  induction is generalizing e with
  | nil => exact .refl e.refs
  | cons i rest ih =>
    have first := declares_step (Γ := Γ) i e
    rw [all]
    cases one : step Γ i e with
    | error v d =>
      rw [bind_of_error one]
      rwa [one] at first
    | ok u d =>
      rw [bind_of_ok one]
      rw [one] at first
      exact first.trans (ih d)

theorem declares_expression (is : List Instruction) (e : ConstantExpr) :
    Γ.space.Declares e.refs (left (expression Γ is e)).refs := by
  have ran := declares_all (Γ := Γ) is e
  rw [expression]
  cases done : all Γ is e with
  | error v d =>
    rw [bind_of_error done]
    rwa [done] at ran
  | ok u d =>
    rw [bind_of_ok done, refs_finish]
    rwa [done] at ran

/-- The state after instructions that were delivered each whether or not those before it were accepted. -/
def after (Γ : Scope) (is : List Instruction) (e : ConstantExpr) : ConstantExpr :=
  is.foldl (fun e i => left (step Γ i e)) e

theorem declares_after (is : List Instruction) (e : ConstantExpr) : Γ.space.Declares e.refs (after Γ is e).refs := by
  induction is generalizing e with
  | nil => exact .refl e.refs
  | cons i rest ih => exact (declares_step i e).trans (ih _)

/-- An accepted expression mentions a function only as its one constant. -/
theorem mem_mentions_iff {C : IndexSpace} {body : List Instruction} {t : ValueType} {func : UInt32}
    (constant : IsConstantExpr C body t) :
    func ∈ body.flatMap Instruction.mentions ↔ body = [.plain (.refFunc func), .end_] := by
  obtain ⟨op, rfl, -⟩ := constant
  cases op <;> simp [Instruction.mentions, eq_comm]

/-- A constant expression is accepted, every instruction of it and its end, exactly if it is one constant of its type and
the mark that closes it. Then it has added the function that it references, if it does, to the references; and whether
it is accepted or not, or even went on behind a rejected instruction, none were lost and those gained are of functions
that exist. -/
theorem accepts_exactly_one_constant (C : IndexSpace) (refs : FuncRefs) (t : ValueType) (body : List Instruction) :
    (isOk (expression (.constant C) body (.start refs t)) = true ↔ IsConstantExpr C body t) ∧
    (∀ e, expression (.constant C) body (.start refs t) = .ok () e →
      ∀ func, func ∈ e.refs ↔ func ∈ refs ∨ body = [.plain (.refFunc func), .end_]) ∧
    C.Declares refs (left (expression (.constant C) body (.start refs t))).refs ∧
    C.Declares refs (after (.constant C) body (.start refs t)).refs := by
  refine ⟨?_, fun e accepted func => ?_, declares_expression (Γ := .constant C) body (.start refs t),
    declares_after (Γ := .constant C) body (.start refs t)⟩
  · rw [isOk_iff]
    constructor
    · rintro ⟨_, e, accepted⟩
      exact (expression_ok_iff.mp accepted).1
    · intro constant
      exact ⟨(), _, expression_ok_iff.mpr ⟨constant, rfl⟩⟩
  · obtain ⟨constant, rfl⟩ := expression_ok_iff.mp accepted
    rw [FuncRefs.mem_declaring_iff, mem_mentions_iff constant, or_comm]

end ConstantExpr

end Wasm
