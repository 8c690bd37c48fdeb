import Wasm.Proofs.Binary.Grammar
import Wasm.Proofs.Validator.Objections

/-! # Open blocks are open brackets

The blocks that the checker has open after instructions it accepted are those that a scan finds that matches brackets and
looks at nothing else. What the scan matches completely is code, block within block, and the `end_` behind it. The depth
that is counted when an expression is read does without the kinds of blocks; it comes to the end of the expression at
the same instruction.
-/

namespace Wasm

namespace Instruction

/-- The kinds of the open blocks, innermost first, after an instruction that is read as a bracket. Nothing may follow the
bracket that closes the last block. -/
def bracket : List FrameKind → Instruction → Option (List FrameKind)
  | [], _ => none
  | kinds, block _ => some (.block :: kinds)
  | kinds, loop _ => some (.loop :: kinds)
  | kinds, if_ _ => some (.if_ :: kinds)
  | kind :: outer, else_ => if kind = .if_ then some (.else_ :: outer) else none
  | _ :: outer, end_ => some outer
  | kinds, _ => some kinds

def brackets (kinds : List FrameKind) (is : List Instruction) : Option (List FrameKind) := is.foldlM bracket kinds

variable {kind : FrameKind} {kinds outer : List FrameKind} {i : Instruction} {type : BlockType}

@[simp] theorem brackets_nil (kinds : List FrameKind) : brackets kinds [] = some kinds := rfl

theorem brackets_cons (kinds : List FrameKind) (i : Instruction) (rest : List Instruction) :
    brackets kinds (i :: rest) = (bracket kinds i).bind (brackets · rest) := rfl

theorem brackets_append (kinds : List FrameKind) (first second : List Instruction) :
    brackets kinds (first ++ second) = (brackets kinds first).bind (brackets · second) :=
  List.foldlM_append ..

@[simp] theorem bracket_leaf (kind : FrameKind) (outer : List FrameKind) (l : Leaf) :
    bracket (kind :: outer) l.instruction = some (kind :: outer) := by
  cases l <;> rfl

theorem bracket_of_opens (opens : i.opens = some (kind, type)) (k : FrameKind) (outer : List FrameKind) :
    bracket (k :: outer) i = some (kind :: k :: outer) := by
  cases i with
  | block | loop | if_ => cases opens; rfl
  | _ => cases opens

/-! ## Code -/

/-- Code leaves the open blocks as they were. -/
theorem brackets_flatten (code : Code) (kind : FrameKind) (outer : List FrameKind) :
    brackets (kind :: outer) code.flatten = some (kind :: outer) := by
  induction code generalizing kind outer with
  | nil => rfl
  | leaf l rest ih => simp [Code.flatten, brackets_cons, ih]
  | block type inner rest inside ih => simp [Code.flatten, brackets_cons, brackets_append, bracket, inside, ih]
  | loop type inner rest inside ih => simp [Code.flatten, brackets_cons, brackets_append, bracket, inside, ih]
  | if_ type inner rest inside ih => simp [Code.flatten, brackets_cons, brackets_append, bracket, inside, ih]
  | ifElse type inner other rest inside second ih =>
    simp [Code.flatten, brackets_cons, brackets_append, bracket, inside, second, ih]

/-- Instructions that leave blocks of the given kinds open, innermost first, with code between the marks of these
blocks. -/
inductive Nested : List FrameKind → List Instruction → Prop where
  | body (code : Code) : Nested [.function] code.flatten
  | opened {i : Instruction} {k kind : FrameKind} {outer : List FrameKind} {type : BlockType} {is : List Instruction}
      (around : Nested (k :: outer) is) (opens : i.opens = some (kind, type)) (code : Code) :
      Nested (kind :: k :: outer) (is ++ i :: code.flatten)
  | divided {k : FrameKind} {outer : List FrameKind} {is : List Instruction} (around : Nested (k :: outer) is)
      (type : BlockType) (first second : Code) :
      Nested (.else_ :: k :: outer) (is ++ .if_ type :: (first.flatten ++ .else_ :: second.flatten))
  | closed (code : Code) : Nested [] (code.flatten ++ [.end_])

namespace Nested

variable {is : List Instruction}

/-- Code that follows is in the innermost block. -/
theorem append (nested : Nested (kind :: outer) is) (more : Code) : Nested (kind :: outer) (is ++ more.flatten) := by
  cases nested with
  | body code =>
    rw [← Code.flatten_append]
    exact .body _
  | opened around opens code =>
    rw [List.append_assoc, List.cons_append, ← Code.flatten_append]
    exact .opened around opens _
  | divided around type first second =>
    rw [List.append_assoc, List.cons_append, List.append_assoc, List.cons_append, ← Code.flatten_append]
    exact .divided around type first _

theorem divide (nested : Nested (.if_ :: outer) is) : Nested (.else_ :: outer) (is ++ [.else_]) := by
  cases nested with
  | @opened i _ _ _ _ is around opens code =>
    cases i with
    | if_ type =>
      have divided := Nested.divided around type code .nil
      simpa [Code.flatten] using divided
    | _ => cases opens

/-- A block that is closed is code of the block around it. -/
theorem close (nested : Nested (kind :: outer) is) : Nested outer (is ++ [.end_]) := by
  cases nested with
  | body code => exact .closed code
  | @opened i _ _ _ _ is around opens code =>
    cases i with
    | block type => simpa [Code.flatten] using around.append (.block type code .nil)
    | loop type => simpa [Code.flatten] using around.append (.loop type code .nil)
    | if_ type => simpa [Code.flatten] using around.append (.if_ type code .nil)
    | _ => cases opens
  | divided around type first second =>
    simpa [Code.flatten] using around.append (.ifElse type first second .nil)

theorem leaf {later : List FrameKind} (nested : Nested (kind :: outer) is) (l : Leaf)
    (read : bracket (kind :: outer) l.instruction = some later) : Nested later (is ++ [l.instruction]) := by
  rw [bracket_leaf] at read
  cases read
  exact nested.append (.single l)

theorem extend {later : List FrameKind} (nested : Nested kinds is) (read : bracket kinds i = some later) :
    Nested later (is ++ [i]) := by
  cases kinds with
  | nil => cases read
  | cons kind outer =>
    cases i with
    | block | loop | if_ =>
      cases read
      exact .opened nested rfl .nil
    | else_ =>
      obtain ⟨rfl, ⟨⟩⟩ := Option.ite_none_right_eq_some.mp read
      exact nested.divide
    | end_ =>
      cases read
      exact nested.close
    | unreachable => exact nested.leaf .unreachable read
    | br label => exact nested.leaf (.br label) read
    | brIf label => exact nested.leaf (.brIf label) read
    | brTable labels default => exact nested.leaf (.brTable labels default) read
    | return_ => exact nested.leaf .return_ read
    | refIsNull => exact nested.leaf .refIsNull read
    | drop => exact nested.leaf .drop read
    | select => exact nested.leaf .select read
    | plain op => exact nested.leaf (.plain op) read

/-- By induction from the end: the last instruction is read with the blocks open that those before it leave. -/
theorem of_brackets {later : List FrameKind} (scanned : brackets [.function] is = some later) : Nested later is := by
  induction is using List.reverseRecOn generalizing later with
  | nil =>
    cases scanned
    exact .body .nil
  | append_singleton is i ih =>
    rw [brackets_append, Option.bind_eq_some_iff] at scanned
    obtain ⟨kinds, first, last⟩ := scanned
    rw [brackets_cons, Option.bind_eq_some_iff] at last
    obtain ⟨_, one, ⟨⟩⟩ := last
    exact (ih first).extend one

end Nested

/-- Brackets match when they are those of code, with an `end_` behind it that closes the expression. -/
theorem brackets_eq_nil_iff {is : List Instruction} :
    brackets [.function] is = some [] ↔ ∃ code : Code, is = code.flatten ++ [.end_] := by
  constructor
  · intro scanned
    cases Nested.of_brackets scanned with
    | closed code => exact ⟨code, rfl⟩
  · rintro ⟨code, rfl⟩
    simp [brackets_append, brackets_flatten, brackets_cons, bracket]

end Instruction

/-! ## Accepted instructions -/

/-- Once the expression is closed nothing closes it again. -/
theorem Closes.eq_nil {depth : Nat} {is more : List Instruction} (closed : Closes depth is)
    (again : Closes depth (is ++ more)) : more = [] := by
  induction is generalizing depth with
  | nil => exact closed.elim
  | cons i rest ih =>
    unfold Closes at closed
    rw [List.cons_append] at again
    unfold Closes at again
    cases nested : i.nesting depth with
    | none =>
      rw [nested] at again
      exact (List.append_eq_nil_iff.mp again).2
    | some inner =>
      rw [nested] at closed again
      exact ih closed again

namespace Check

open Instruction

variable {Γ : Scope} {i : Instruction} {is : List Instruction} {c c' : Checker}

theorem Move.bracket (move : Move i true c c') :
    bracket (c.frames.map Frame.kind) i = some (c'.frames.map Frame.kind) := by
  cases move with
  | inside leaf evolves =>
    obtain ⟨l, rfl⟩ := leaf rfl
    simp [evolves.1.1]
  | opened opens type evolves =>
    rw [List.map_cons, bracket_of_opens opens]
    simp [Frame.enter, evolves.1.1]
  | divided isIf => simp [Instruction.bracket, Frame.enter, isIf]
  | @closed f outer given c' gave =>
    cases outer with
    | nil => cases gave; rfl
    | cons g outer => cases gave; rfl

theorem bracket_of_step (accepted : step Γ i c = .ok () c') :
    bracket (c.frames.map Frame.kind) i = some (c'.frames.map Frame.kind) := by
  obtain ⟨_ | ⟨f, outer⟩, given⟩ := c
  · cases accepted
  · have move := (step_moves Γ i f outer given).move
    rw [accepted] at move
    exact move.bracket

theorem brackets_of_all (accepted : all Γ is c = .ok () c') :
    brackets (c.frames.map Frame.kind) is = some (c'.frames.map Frame.kind) := by
  induction is generalizing c with
  | nil => cases accepted; rfl
  | cons i rest ih =>
    obtain ⟨d, one, more⟩ := all_cons_ok_iff.mp accepted
    rw [brackets_cons, bracket_of_step one]
    exact ih more

/-- The count of open blocks tells the end of an expression as the checker does. -/
theorem isEnded_iff_closes {depth : Nat} (before : c.frames.length = framesAt (some depth))
    (accepted : all Γ is c = .ok () c') : c'.isEnded = true ↔ Closes depth is := by
  induction is generalizing c depth with
  | nil =>
    cases accepted
    simp [Checker.isEnded, Closes, ← List.length_eq_zero_iff, before, framesAt]
  | cons i rest ih =>
    obtain ⟨d, one, more⟩ := all_cons_ok_iff.mp accepted
    have after := length_of_step before one
    unfold Closes
    cases nested : i.nesting depth with
    | some inner =>
      rw [nested] at after
      exact ih after more
    | none =>
      rw [nested] at after
      obtain ⟨frames, given⟩ := d
      obtain rfl : frames = [] := List.length_eq_zero_iff.mp after
      cases rest with
      | nil =>
        cases more
        exact ⟨fun _ => rfl, fun _ => rfl⟩
      | cons j rest =>
        -- whatever follows is rejected
        obtain ⟨_, next, _⟩ := all_cons_ok_iff.mp more
        cases next

theorem accepts_iff_isEnded {results : List ValueType} (accepted : all Γ is (.start results) = .ok () c) :
    Accepts Γ results is ↔ c.isEnded = true := by
  simp only [Accepts, expression, Outcome.bind_of_ok accepted, finish]
  split
  · next ended => exact ⟨fun _ => ended, fun _ => ⟨c, rfl⟩⟩
  · next going => simp [going]

theorem isEnded_iff_brackets {results : List ValueType} (accepted : all Γ is (.start results) = .ok () c) :
    c.isEnded = true ↔ brackets [.function] is = some [] := by
  have scanned : brackets [.function] is = some (c.frames.map Frame.kind) := brackets_of_all accepted
  simp [scanned, Checker.isEnded]

/-- The blocks that are open after accepted instructions are the open brackets, and none is open when all brackets are
closed. The instructions are then an expression, which is code with an `end_` behind it. The count of open blocks ends
with the same instruction, so where an expression is read from bytes the checker comes to its end with the last
instruction read and not before. -/
theorem open_blocks_match_brackets {Γ : Scope} {results : List ValueType} {is : List Instruction} {c : Checker}
    (accepted : all Γ is (.start results) = .ok () c) :
    brackets [.function] is = some (c.frames.map Frame.kind) ∧
    (c.isEnded = true ↔ brackets [.function] is = some []) ∧
    (Accepts Γ results is ↔ ∃ code : Code, is = code.flatten ++ [.end_]) ∧
    (c.isEnded = true ↔ Closes 0 is) ∧
    ∀ cursor body later, Binary.Decoder.expression cursor = .ok body later → is <+: body.toList →
      (c.isEnded = true ↔ is = body.toList) := by
  have ended := isEnded_iff_brackets accepted
  have counted : c.isEnded = true ↔ Closes 0 is := isEnded_iff_closes rfl accepted
  refine ⟨brackets_of_all accepted, ended, ?_, counted, ?_⟩
  · rw [accepts_iff_isEnded accepted, ended, brackets_eq_nil_iff]
  · rintro cursor body later decoded ⟨rest, whole⟩
    obtain ⟨more, closed, nothing⟩ := (Binary.decoded_of_expression decoded).closes
    rw [nothing rfl, List.append_nil] at closed
    rw [counted]
    constructor
    · intro here
      rw [← whole] at closed ⊢
      rw [here.eq_nil closed, List.append_nil]
    · rintro rfl
      exact closed

/-- A loop with a conditional block of two parts in it, at the end of the expression. -/
theorem open_blocks_match_brackets_nested :
    let Γ : Scope := .function {} [] {} Std.TreeSet.empty
    let is : List Instruction := [.loop .empty, .plain (.i32Const 1), .if_ .empty, .br 1, .else_, .end_, .end_, .end_]
    Accepts Γ [] is ∧ Closes 0 is ∧ brackets [.function] is = some [] ∧ ∃ code : Code, is = code.flatten ++ [.end_] := by
  intro Γ is
  have accepted : Outcome.isOk (all Γ is (.start [])) = true := by decide +kernel
  obtain ⟨_, c, done⟩ := Outcome.isOk_iff.mp accepted
  obtain ⟨-, ended, structured, counted, -⟩ := open_blocks_match_brackets done
  have scanned : brackets [.function] is = some [] := by decide
  have written := brackets_eq_nil_iff.mp scanned
  exact ⟨structured.mpr written, counted.mp (ended.mpr scanned), scanned, written⟩

end Check

end Wasm
