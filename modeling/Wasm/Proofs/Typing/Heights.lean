import Wasm.Proofs.Typing.Reasons
import Wasm.Proofs.Typing.Rules

/-! # One stack for all blocks

The operands of all blocks can as well be kept on one stack. A block then has the height that the stack had when it was
opened, and its operands are those above. The checker that works in this way is the same as the one that gives every
block its own operands, step by step and whatever was rejected before. Heights are in order, because nothing is popped
from below the innermost one.
-/

namespace Wasm

open Outcome

namespace Flat

/-- An open block, with the number of operands below its own. -/
structure Block where
  kind : FrameKind
  startTypes : List ValueType
  endTypes : List ValueType
  height : Nat
  unreachable : Bool
deriving DecidableEq, Repr

def Block.labelTypes (b : Block) : List ValueType :=
  match b.kind with
  | .loop => b.startTypes
  | _ => b.endTypes

structure State where
  /-- The operands of all blocks, the top one first. -/
  operands : List Slot
  /-- The open blocks, innermost first. -/
  blocks : List Block
  ended : Bool
deriving DecidableEq, Repr

/-- Why a step fails. -/
inductive Fault where
  | broken (rule : Violation)
  /-- The stack is empty, though it is not as low as the innermost block. -/
  | exhausted
deriving DecidableEq, Repr

def machine : Machine Fault State where
  report := .broken
  isEnded := State.ended
  push slot := fun s => .ok () { s with operands := slot :: s.operands }
  pop := fun s =>
    match s.blocks with
    | [] => .error (.broken .noOpenBlock) s
    | b :: _ =>
      if s.operands.length = b.height then
        if b.unreachable then .ok .unknown s else .error (.broken .underflow) s
      else
        match s.operands with
        | slot :: rest => .ok slot { s with operands := rest }
        | [] => .error .exhausted s
  exempt := fun s => .ok (s.blocks.head?.any (·.unreachable)) s
  block := fun s =>
    match s.blocks with
    | b :: _ => .ok (b.kind, ⟨b.startTypes, b.endTypes⟩) s
    | [] => .error (.broken .noOpenBlock) s
  bare := fun s => .ok (s.blocks.head?.all fun b => s.operands.length == b.height) s
  enter kind type := fun s =>
    .ok () { s with
      operands := Frame.stacked type.params s.operands
      blocks := ⟨kind, type.params, type.results, s.operands.length, false⟩ :: s.blocks }
  exit := fun s => .ok () { s with blocks := s.blocks.tail }
  labelTypes label := fun s =>
    match s.blocks[label.toNat]? with
    | some b => .ok b.labelTypes s
    | none => .error (.broken (.unknown .label label)) s
  markUnreachable := fun s =>
    match s.blocks with
    | [] => .error (.broken .noOpenBlock) s
    | b :: outer =>
      .ok () { s with
        operands := s.operands.drop (s.operands.length - b.height)
        blocks := { b with unreachable := true } :: outer }
  settle := fun s => .ok () { s with ended := s.ended || s.blocks.isEmpty }

/-- An expression of the given results, nothing of it read yet. -/
def start (results : List ValueType) : State := ⟨[], [⟨.function, [], results, 0, false⟩], false⟩

/-! ## Blocks with operands of their own -/

/-- The operands of all blocks on one stack, with what the expression has given below them. -/
def joined (frames : List Frame) (given : List Slot) : List Slot := frames.flatMap (·.operands) ++ given

def blocks (given : List Slot) : List Frame → List Block
  | [] => []
  | f :: outer => ⟨f.kind, f.startTypes, f.endTypes, (joined outer given).length, f.unreachable⟩ :: blocks given outer

/-- A checker on one stack. Between the steps `ended` says that no block is open. -/
def view (ended : Bool) (c : Checker) : State := ⟨joined c.frames c.given, blocks c.given c.frames, ended⟩

def ofChecker (c : Checker) : State := view c.isEnded c

def shown {α : Type} (view : Checker → State) : EStateM.Result Violation Checker α → EStateM.Result Fault State α
  | .ok a c => .ok a (view c)
  | .error v c => .error (.broken v) (view c)

/-- What is done on one stack looks like what is done to the blocks, in the middle of a step. -/
def Mirrors {α : Type} (m : EStateM Fault State α) (n : Check α) : Prop :=
  ∀ c, m (view false c) = shown (view false) (n c)

section Mirrors

variable {α β : Type} {m : EStateM Fault State α} {n : Check α} {k : α → EStateM Fault State β} {l : α → Check β}

theorem Mirrors.bind (first : Mirrors m n) (second : ∀ a, Mirrors (k a) (l a)) : Mirrors (m >>= k) (n >>= l) := by
  intro c
  have one := first c
  cases done : n c with
  | ok a d =>
    rw [done] at one
    rw [bind_of_ok one, bind_of_ok done]
    exact second a d
  | error v d =>
    rw [done] at one
    rw [bind_of_error one, bind_of_error done]
    rfl

theorem Mirrors.pure (a : α) : Mirrors (Pure.pure a) (Pure.pure a) := fun _ => rfl

theorem Mirrors.reject (v : Violation) : Mirrors (machine.reject v : EStateM Fault State α) (Check.machine.reject v) :=
  fun _ => rfl

theorem Mirrors.checked (x : Verdict α) : Mirrors (machine.checked x) (Check.machine.checked x) := by
  cases x with
  | ok a => exact .pure a
  | error v => exact .reject v

end Mirrors

@[simp] theorem joined_cons (f : Frame) (outer : List Frame) (given : List Slot) :
    joined (f :: outer) given = f.operands ++ joined outer given := by
  simp [joined]

theorem mirrors_push (slot : Slot) : Mirrors (machine.push slot) (Check.machine.push slot) := by
  rintro ⟨frames, given⟩
  cases frames with
  | nil => rfl
  | cons f outer => simp [machine, Check.machine, shown, view, blocks]

theorem mirrors_pop : Mirrors machine.pop Check.machine.pop := by
  rintro ⟨frames, given⟩
  cases frames with
  | nil => rfl
  | cons f outer =>
    cases own : f.operands with
    | nil =>
      cases dead : f.unreachable <;>
        simp [machine, Check.machine, Check.innermost, Operate.pop, shown, view, blocks, own, dead]
    | cons s rest =>
      have above : rest.length + (joined outer given).length + 1 ≠ (joined outer given).length := by omega
      simp [machine, Check.machine, Check.innermost, Operate.pop, shown, view, blocks, own, above]

theorem mirrors_exempt : Mirrors machine.exempt Check.machine.exempt := by
  rintro ⟨frames, given⟩
  cases frames <;> rfl

theorem mirrors_block : Mirrors machine.block Check.machine.block := by
  rintro ⟨frames, given⟩
  cases frames <;> rfl

theorem mirrors_enter (kind : FrameKind) (type : FuncType) :
    Mirrors (machine.enter kind type) (Check.machine.enter kind type) := by
  intro c
  simp [machine, Check.machine, Check.enter, shown, view, blocks, Frame.enter, Frame.stacked_eq]

/-- A block is taken away when it has no operands, so none are left on the stack. -/
theorem mirrors_exit {α : Type} (a : α) :
    Mirrors (do let bare ← machine.bare; if bare then (do machine.exit; pure a) else machine.reject .leftover)
      (do let bare ← Check.machine.bare
          if bare then (do Check.machine.exit; pure a) else Check.machine.reject .leftover) := by
  rintro ⟨frames, given⟩
  cases frames with
  | nil => rfl
  | cons f outer =>
    have bare : machine.bare (view false ⟨f :: outer, given⟩) =
        .ok f.operands.isEmpty (view false ⟨f :: outer, given⟩) := by
      cases own : f.operands with
      | nil => simp [machine, view, blocks, own]
      | cons s rest =>
        have above : rest.length + (joined outer given).length + 1 ≠ (joined outer given).length := by omega
        simp [machine, view, blocks, own, above]
    have bare' : Check.machine.bare ⟨f :: outer, given⟩ = .ok f.operands.isEmpty ⟨f :: outer, given⟩ := rfl
    rw [bind_of_ok bare, bind_of_ok bare']
    cases own : f.operands with
    | nil =>
      show EStateM.Result.ok a _ = EStateM.Result.ok a _
      simp [view, blocks, own]
    | cons s rest => rfl

theorem labelTypes_blocks (given : List Slot) (frames : List Frame) (n : Nat) :
    (blocks given frames)[n]?.map Block.labelTypes = frames[n]?.map Frame.labelTypes := by
  induction frames generalizing n with
  | nil => rfl
  | cons f outer ih =>
    cases n with
    | zero => rfl
    | succ n => exact ih n

theorem mirrors_labelTypes (label : UInt32) : Mirrors (machine.labelTypes label) (Check.machine.labelTypes label) := by
  intro c
  have same := labelTypes_blocks c.given c.frames label.toNat
  cases found : c.frames[label.toNat]? with
  | none =>
    rw [found, Option.map_none, Option.map_eq_none_iff] at same
    simp [machine, Check.machine, Check.labelTypes, view, shown, found, same]
  | some f =>
    rw [found, Option.map_some, Option.map_eq_some_iff] at same
    obtain ⟨b, there, types⟩ := same
    simp [machine, Check.machine, Check.labelTypes, view, shown, found, there, types]

theorem mirrors_markUnreachable : Mirrors machine.markUnreachable Check.machine.markUnreachable := by
  rintro ⟨frames, given⟩
  cases frames with
  | nil => rfl
  | cons f outer => simp [machine, Check.machine, Check.innermost, Operate.markUnreachable, shown, view, blocks]

/-! ## Rules -/

theorem mirrors_popExpected (t : ValueType) : Mirrors (machine.popExpected t) (Check.machine.popExpected t) := by
  refine mirrors_pop.bind fun operand => mirrors_exempt.bind fun exempt => ?_
  cases operand with
  | unknown => exact .pure _
  | known actual =>
    dsimp only
    split
    · exact .reject _
    · exact .pure _

theorem mirrors_popOnto (types : List ValueType) (popped : List Slot) :
    Mirrors (machine.popOnto types popped) (Check.machine.popOnto types popped) := by
  induction types generalizing popped with
  | nil => exact .pure popped
  | cons t rest ih => exact (mirrors_popExpected t).bind fun s => ih (s :: popped)

theorem mirrors_popAll (types : List ValueType) : Mirrors (machine.popAll types) (Check.machine.popAll types) :=
  mirrors_popOnto types.reverse []

theorem mirrors_restore (slots : List Slot) : Mirrors (machine.restore slots) (Check.machine.restore slots) := by
  induction slots with
  | nil => exact .pure ()
  | cons s rest ih => exact (mirrors_push s).bind fun _ => ih

theorem mirrors_apply (type : FuncType) : Mirrors (machine.apply type) (Check.machine.apply type) :=
  (mirrors_popAll type.params).bind fun _ => mirrors_restore _

theorem mirrors_leaveFor (types : List ValueType) : Mirrors (machine.leaveFor types) (Check.machine.leaveFor types) :=
  (mirrors_popAll types).bind fun _ => mirrors_markUnreachable

theorem mirrors_leave : Mirrors machine.leave Check.machine.leave :=
  mirrors_block.bind fun block => (mirrors_popAll block.2.results).bind fun _ => mirrors_exit block

theorem mirrors_openBlock (Γ : Scope) (kind : FrameKind) (type : BlockType) :
    Mirrors (machine.openBlock Γ kind type) (Check.machine.openBlock Γ kind type) := by
  refine (Mirrors.checked _).bind fun signature => ?_
  have rest := (mirrors_popAll signature.params).bind fun _ => mirrors_enter kind signature
  split
  · exact (mirrors_popExpected .i32).bind fun _ => rest
  · exact rest

theorem mirrors_beginElse : Mirrors machine.beginElse Check.machine.beginElse := by
  refine mirrors_block.bind fun block => ?_
  split
  · exact mirrors_leave.bind fun block => mirrors_enter .else_ block.2
  · exact .reject _

theorem mirrors_closeBlock : Mirrors machine.closeBlock Check.machine.closeBlock := by
  refine mirrors_leave.bind fun block => ?_
  have rest : Mirrors (machine.pushAll block.2.results) (Check.machine.pushAll block.2.results) := mirrors_restore _
  split
  · exact (mirrors_enter .else_ block.2).bind fun _ => mirrors_leave.bind fun _ => rest
  · exact rest

theorem mirrors_tableLabels (default : UInt32) (arity : Nat) (labels : List UInt32) :
    Mirrors (machine.tableLabels default arity labels) (Check.machine.tableLabels default arity labels) := by
  induction labels with
  | nil => exact .pure ()
  | cons label rest ih =>
    refine (mirrors_labelTypes label).bind fun types => ?_
    split
    · exact .reject _
    · exact (mirrors_popAll types).bind fun popped => (mirrors_restore popped).bind fun _ => ih

theorem mirrors_refIsNull : Mirrors machine.refIsNull Check.machine.refIsNull := by
  refine mirrors_pop.bind fun operand => mirrors_exempt.bind fun exempt => ?_
  split
  · exact mirrors_push _
  · exact .reject _

theorem mirrors_select : Mirrors machine.select Check.machine.select := by
  refine (mirrors_popExpected .i32).bind fun _ => mirrors_pop.bind fun first => mirrors_pop.bind fun second =>
    mirrors_exempt.bind fun exempt => ?_
  generalize (if first = .unknown then second else first) = chosen
  dsimp only
  split
  · exact mirrors_push _
  · split
    · exact .reject _
    · split
      · exact mirrors_push _
      · exact .reject _

/-- Every instruction does the same on one stack, apart from the end of a block, after which it is seen whether any block
is open. -/
theorem mirrors_instruction (Γ : Scope) {i : Instruction} (inside : i ≠ .end_) :
    Mirrors (machine.instruction Γ i) (Check.machine.instruction Γ i) := by
  have index := mirrors_popExpected .i32
  cases i with
  | end_ => exact absurd rfl inside
  | unreachable => exact mirrors_markUnreachable
  | block type => exact mirrors_openBlock Γ .block type
  | loop type => exact mirrors_openBlock Γ .loop type
  | if_ type => exact mirrors_openBlock Γ .if_ type
  | else_ => exact mirrors_beginElse
  | br label => exact (mirrors_labelTypes label).bind mirrors_leaveFor
  | brIf label => exact index.bind fun _ => (mirrors_labelTypes label).bind fun types => mirrors_apply ⟨types, types⟩
  | brTable labels default =>
    exact index.bind fun _ => (mirrors_labelTypes default).bind fun types =>
      (mirrors_tableLabels default types.length labels).bind fun _ => mirrors_leaveFor types
  | return_ =>
    show Mirrors (machine.returnFrom Γ) (Check.machine.returnFrom Γ)
    unfold Machine.returnFrom
    cases Γ.returns with
    | none => exact .reject _
    | some types => exact mirrors_leaveFor types
  | refIsNull => exact mirrors_refIsNull
  | drop => exact mirrors_pop.bind fun _ => .pure ()
  | select => exact mirrors_select
  | plain op => exact (Mirrors.checked _).bind mirrors_apply

/-! ## Steps and histories -/

/-- An expression ends with the end of a block that is accepted. -/
theorem isEnded_of_move {i : Instruction} {accepted : Bool} {c c' : Checker} (move : Check.Move i accepted c c')
    (going : i ≠ .end_ ∨ accepted = false) : c'.isEnded = false := by
  cases move with
  | inside | opened | divided | refused => rfl
  | closed =>
    rcases going with inside | rejected
    · exact absurd rfl inside
    · cases rejected

theorem shown_of_open {α : Type} {r : EStateM.Result Violation Checker α} (going : (left r).isEnded = false) :
    shown (view false) r = shown ofChecker r := by
  cases r with
  | ok a c =>
    change c.isEnded = false at going
    simp [shown, ofChecker, going]
  | error v c =>
    change c.isEnded = false at going
    simp [shown, ofChecker, going]

theorem settle_view (c : Checker) : machine.settle (view false c) = .ok () (ofChecker c) := by
  obtain ⟨frames, given⟩ := c
  cases frames <;> rfl

/-- A step on one stack is the checker's step. -/
theorem step_ofChecker (Γ : Scope) (i : Instruction) (c : Checker) :
    machine.step Γ i (ofChecker c) = shown ofChecker (Check.step Γ i c) := by
  obtain ⟨frames, given⟩ := c
  cases frames with
  | nil => rfl
  | cons f outer =>
    have move := (Check.step_moves Γ i f outer given).move
    show machine.instruction Γ i (view false ⟨f :: outer, given⟩) = _
    by_cases closes : i = .end_
    · subst closes
      have mirrored := mirrors_closeBlock ⟨f :: outer, given⟩
      rw [Check.alike_closeBlock] at mirrored
      show (machine.closeBlock >>= fun _ => machine.settle) _ = _
      rw [Check.step_eq] at move ⊢
      show _ = shown ofChecker (Check.closeBlock ⟨f :: outer, given⟩)
      change Check.Move .end_ (isOk (Check.closeBlock ⟨f :: outer, given⟩)) _ (left (Check.closeBlock ⟨f :: outer, given⟩)) at move
      cases done : Check.closeBlock ⟨f :: outer, given⟩ with
      | ok u c =>
        rw [done] at mirrored
        rw [bind_of_ok mirrored, settle_view]
        rfl
      | error v c =>
        rw [done] at mirrored move
        rw [bind_of_error mirrored]
        exact shown_of_open (isEnded_of_move move (.inr rfl))
    · rw [mirrors_instruction Γ closes, Check.alike_instruction]
      exact shown_of_open (isEnded_of_move move (.inl closes))

end Flat

/-- The checker after instructions have been delivered, each of them whether or not those before it were accepted. -/
def Check.after (Γ : Scope) (is : List Instruction) (c : Checker) : Checker :=
  is.foldl (fun c i => left (step Γ i c)) c

theorem Flat.after_ofChecker (Γ : Scope) (is : List Instruction) (c : Checker) :
    machine.after Γ is (ofChecker c) = ofChecker (Check.after Γ is c) := by
  induction is generalizing c with
  | nil => rfl
  | cons i rest ih =>
    have one : left (machine.step Γ i (ofChecker c)) = ofChecker (left (Check.step Γ i c)) := by
      rw [step_ofChecker]
      cases Check.step Γ i c <;> rfl
    show machine.after Γ rest (left (machine.step Γ i (ofChecker c))) = _
    rw [one]
    exact ih _

/-! ## What holds of the blocks -/

namespace Checker

/-- The outermost block, and only that, is the expression itself. -/
def Rooted (results : List ValueType) : List Frame → Prop
  | [] => True
  | [f] => f.kind = .function ∧ f.endTypes = results
  | f :: g :: outer => f.kind ≠ .function ∧ Rooted results (g :: outer)

/-- What holds of an expression of the given results, whatever was delivered to the checker. -/
structure Sound (results : List ValueType) (c : Checker) : Prop where
  rooted : Rooted results c.frames
  tidy : ∀ f ∈ c.frames, f.Tidy
  given : c.given = if c.isEnded then Frame.stacked results [] else []

variable {results : List ValueType} {f g : Frame} {outer : List Frame} {given : List Slot}

theorem Rooted.becomes (rooted : Rooted results (f :: outer)) (becomes : f.Becomes g) : Rooted results (g :: outer) := by
  obtain ⟨kind, -, ends, -⟩ := becomes
  cases outer with
  | nil => exact ⟨kind ▸ rooted.1, ends ▸ rooted.2⟩
  | cons h outer => exact ⟨kind ▸ rooted.1, rooted.2⟩

theorem Rooted.replaced (rooted : Rooted results (f :: outer)) (inner : f.kind ≠ .function) (other : g.kind ≠ .function) :
    Rooted results (g :: outer) := by
  cases outer with
  | nil => exact absurd rooted.1 inner
  | cons h outer => exact ⟨other, rooted.2⟩

theorem Sound.inside (sound : Sound results ⟨f :: outer, given⟩) (rooted : Rooted results (g :: outer)) (tidy : g.Tidy) :
    Sound results ⟨g :: outer, given⟩ where
  rooted := rooted
  tidy := List.forall_mem_cons.mpr ⟨tidy, (List.forall_mem_cons.mp sound.tidy).2⟩
  given := sound.given

theorem Sound.evolves (sound : Sound results ⟨f :: outer, given⟩) (evolves : f.Evolves g) :
    Sound results ⟨g :: outer, given⟩ :=
  sound.inside (sound.rooted.becomes evolves.1) (evolves.2 (sound.tidy f List.mem_cons_self))

theorem Sound.closed {c' : Checker} (sound : Sound results ⟨f :: outer, given⟩)
    (gave : Check.give f.endTypes ⟨outer, given⟩ = .ok () c') : Sound results c' := by
  obtain ⟨rooted, tidy, holds⟩ := sound
  cases outer with
  | nil =>
    cases gave
    refine ⟨trivial, ?_, ?_⟩
    · intro f open_
      cases open_
    · change given = [] at holds
      show Frame.stacked f.endTypes given = Frame.stacked results []
      rw [holds, rooted.2]
  | cons g outer =>
    cases gave
    have around : Sound results ⟨g :: outer, given⟩ := ⟨rooted.2, (List.forall_mem_cons.mp tidy).2, holds⟩
    exact around.evolves (.receive g f.endTypes)

theorem sound_start (results : List ValueType) : Sound results (.start results) where
  rooted := ⟨rfl, rfl⟩
  tidy := List.forall_mem_singleton.mpr (Frame.tidy_enter _ _)
  given := rfl

/-- A block that an instruction opens is not the expression itself. -/
theorem kind_of_opens {i : Instruction} {kind : FrameKind} {type : BlockType} (opens : i.opens = some (kind, type)) :
    kind ≠ .function := by
  cases i <;> cases opens <;> decide

theorem Sound.move {i : Instruction} {accepted : Bool} {c' : Checker} (sound : Sound results ⟨f :: outer, given⟩)
    (move : Check.Move i accepted ⟨f :: outer, given⟩ c') : Sound results c' := by
  cases move with
  | inside _ evolves => exact sound.evolves evolves
  | opened opens type evolves =>
    have around := sound.evolves evolves
    exact ⟨⟨kind_of_opens opens, around.rooted⟩, List.forall_mem_cons.mpr ⟨Frame.tidy_enter _ _, around.tidy⟩, around.given⟩
  | divided isIf =>
    refine sound.inside (sound.rooted.replaced ?_ ?_) (Frame.tidy_enter _ _)
    · rw [isIf]; decide
    · exact FrameKind.noConfusion
  | refused isIf evolves =>
    refine sound.inside (sound.rooted.replaced ?_ ?_) (evolves.2 (Frame.tidy_enter _ _))
    · rw [isIf]; decide
    · rw [evolves.1.1]; exact FrameKind.noConfusion
  | closed gave => exact sound.closed gave

theorem Sound.step {Γ : Scope} {c : Checker} (sound : Sound results c) (i : Instruction) :
    Sound results (left (Check.step Γ i c)) := by
  obtain ⟨frames, given⟩ := c
  cases frames with
  | nil => exact sound
  | cons f outer => exact sound.move (Check.step_moves Γ i f outer given).move

theorem Sound.after {Γ : Scope} {c : Checker} (sound : Sound results c) (is : List Instruction) :
    Sound results (Check.after Γ is c) := by
  induction is generalizing c with
  | nil => exact sound
  | cons i rest ih => exact ih (sound.step i)

end Checker

/-! ## What holds of the stack -/

namespace Flat

/-- The operand at a place of the stack, counted from the bottom, belongs to a block: it is not below the block's height
and, if there is a block inside of it, below that block's. -/
def State.Belongs (s : State) (place : Nat) (b : Block) : Prop :=
  ∃ inner outer, s.blocks = inner ++ b :: outer ∧ b.height ≤ place ∧ ∀ next ∈ inner.getLast?, place < next.height

/-- What holds of the stack in an expression of the given results, whatever was delivered. -/
structure State.Sound (results : List ValueType) (s : State) : Prop where
  heights : s.blocks.Pairwise fun inner outer => outer.height ≤ inner.height
  within : ∀ b ∈ s.blocks.head?, b.height ≤ s.operands.length
  rooted : s.blocks ≠ [] → ∃ inner root, s.blocks = inner ++ [root] ∧ (∀ b ∈ inner, b.kind ≠ .function) ∧
    root.kind = .function ∧ root.height = 0 ∧ root.endTypes = results
  ended : s.ended = true ↔ s.blocks = []
  unknowns : ∀ place, s.operands.reverse[place]? = some .unknown → ∃ b, s.Belongs place b ∧ b.unreachable = true
  given : s.ended = true → s.operands.reverse = results.map .known

variable {results : List ValueType} {given : List Slot}

theorem height_le_of_mem {frames : List Frame} {b : Block} (mem : b ∈ blocks given frames) :
    b.height ≤ (joined frames given).length := by
  induction frames with
  | nil => cases mem
  | cons f outer ih =>
    have grows : (joined outer given).length ≤ (joined (f :: outer) given).length := by simp
    rcases List.mem_cons.mp mem with rfl | mem
    · exact grows
    · exact (ih mem).trans grows

theorem heights_ordered (given : List Slot) (frames : List Frame) :
    (blocks given frames).Pairwise fun inner outer => outer.height ≤ inner.height := by
  induction frames with
  | nil => exact .nil
  | cons f outer ih => exact .cons (fun b mem => height_le_of_mem mem) ih

theorem blocks_rooted {frames : List Frame} (rooted : Checker.Rooted results frames) (going : frames ≠ []) :
    ∃ inner root, blocks given frames = inner ++ [root] ∧ (∀ b ∈ inner, b.kind ≠ .function) ∧
      root.kind = .function ∧ root.height = given.length ∧ root.endTypes = results := by
  induction frames with
  | nil => exact absurd rfl going
  | cons f outer ih =>
    cases outer with
    | nil => exact ⟨[], _, rfl, List.forall_mem_nil _, rooted.1, rfl, rooted.2⟩
    | cons g outer =>
      obtain ⟨inner, root, shape, named, rest⟩ := ih rooted.2 (List.cons_ne_nil _ _)
      refine ⟨_ :: inner, root, congrArg (_ :: ·) shape, ?_, rest⟩
      exact List.forall_mem_cons.mpr ⟨rooted.1, named⟩

/-- Going up the stack block by block: the operands of a block are those from its height on. -/
theorem unknown_belongs {frames : List Frame} {place : Nat} {ended : Bool} (tidy : ∀ f ∈ frames, f.Tidy)
    (known : Slot.unknown ∉ given) (found : (joined frames given).reverse[place]? = some .unknown) :
    ∃ b, State.Belongs ⟨joined frames given, blocks given frames, ended⟩ place b ∧ b.unreachable = true := by
  induction frames with
  | nil => exact absurd (List.mem_reverse.mp (List.mem_of_getElem? found)) known
  | cons f outer ih =>
    obtain ⟨tidied, tidy⟩ := List.forall_mem_cons.mp tidy
    rw [joined_cons, List.reverse_append] at found
    by_cases below : place < (joined outer given).length
    · rw [List.getElem?_append_left (by simpa using below)] at found
      obtain ⟨b, ⟨inner, rest, shape, above, under⟩, dead⟩ := ih tidy found
      refine ⟨b, ⟨_ :: inner, rest, congrArg (_ :: ·) shape, above, ?_⟩, dead⟩
      intro next last
      cases inner with
      | nil =>
        obtain rfl := Option.some.inj last
        exact below
      | cons first inner => exact under next last
    · rw [List.getElem?_append_right (by simpa using below)] at found
      have own : Slot.unknown ∈ f.operands := List.mem_reverse.mp (List.mem_of_getElem? found)
      refine ⟨_, ⟨[], _, rfl, Nat.le_of_not_lt below, ?_⟩, tidied own⟩
      intro next last
      cases last

theorem sound_ofChecker {c : Checker} (sound : c.Sound results) : (ofChecker c).Sound results := by
  obtain ⟨frames, given⟩ := c
  obtain ⟨rooted, tidy, holds⟩ := sound
  have known : Slot.unknown ∉ given := by
    change given = _ at holds
    rw [holds]
    split
    · exact fun unknown => by simpa using Frame.unknown_mem_stacked.mp unknown
    · exact List.not_mem_nil
  refine ⟨heights_ordered given frames, ?_, ?_, ?_, fun place found => unknown_belongs tidy known found, ?_⟩
  · intro b first
    exact height_le_of_mem (List.mem_of_mem_head? first)
  · intro going
    cases frames with
    | nil => exact absurd rfl going
    | cons f outer =>
      obtain rfl : given = [] := holds
      exact blocks_rooted rooted (List.cons_ne_nil _ _)
  · cases frames with
    | nil => exact ⟨fun _ => rfl, fun _ => rfl⟩
    | cons f outer => simp [ofChecker, view, blocks, Checker.isEnded]
  · intro finished
    cases frames with
    | nil =>
      obtain rfl : given = Frame.stacked results [] := holds
      simp [ofChecker, view, joined, Frame.stacked_eq]
    | cons f outer => cases finished

/-- A step fails because a rule is broken, and never for want of an open block or of an operand above the height of the
innermost one. -/
theorem fault_of_step {Γ : Scope} {i : Instruction} {c : Checker} {fault : Fault} {s : State}
    (failed : machine.step Γ i (ofChecker c) = .error fault s) : fault ≠ .exhausted ∧ fault ≠ .broken .noOpenBlock := by
  rw [step_ofChecker] at failed
  cases done : Check.step Γ i c with
  | ok u d =>
    rw [done] at failed
    cases failed
  | error v d =>
    rw [done] at failed
    cases failed
    refine ⟨Fault.noConfusion, fun same => ?_⟩
    obtain rfl : v = .noOpenBlock := by
      cases same
      rfl
    obtain ⟨frames, given⟩ := c
    cases frames with
    | nil => cases done
    | cons f outer =>
      have reason := (Check.step_moves Γ i f outer given).reason _ d done
      rcases reason.ordinary_or_misfit with ordinary | misfit
      · cases ordinary
      · cases misfit

/-- On one stack for all blocks the checker is the same, and after every history, rejected instructions included, the
heights of the blocks are in order, operands of unknown type belong to blocks whose code is not reached, and the results
are all that is left at the end. So no step runs out of blocks, nor of operands that should be there. -/
theorem sound_after_every_history (Γ : Scope) (results : List ValueType) (is : List Instruction) :
    machine.after Γ is (start results) = ofChecker (Check.after Γ is (.start results)) ∧
    (machine.after Γ is (start results)).Sound results ∧
    (∀ i, machine.step Γ i (machine.after Γ is (start results)) =
      shown ofChecker (Check.step Γ i (Check.after Γ is (.start results)))) ∧
    ((machine.after Γ is (start results)).ended = true → ∀ i,
      machine.step Γ i (machine.after Γ is (start results)) =
        .error (.broken (.afterExpression i)) (machine.after Γ is (start results))) ∧
    ∀ i fault s, machine.step Γ i (machine.after Γ is (start results)) = .error fault s →
      fault ≠ .exhausted ∧ fault ≠ .broken .noOpenBlock := by
  have same : machine.after Γ is (start results) = ofChecker (Check.after Γ is (.start results)) :=
    after_ofChecker Γ is (.start results)
  rw [same]
  refine ⟨rfl, sound_ofChecker ((Checker.sound_start results).after is), fun i => step_ofChecker Γ i _, fun finished i => ?_,
    fun i fault s => fault_of_step⟩
  show (if (ofChecker _).ended then _ else _) = _
  rw [if_pos finished]
  rfl

end Flat

end Wasm
