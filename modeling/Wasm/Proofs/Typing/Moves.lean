import Wasm.Proofs.Typing.Leaves

/-! # What a step of the checker can do

Whether an instruction is accepted or rejected, it leaves the blocks around the innermost one as they were. What it
makes of the innermost block, and why it may be rejected, is said here once for all instructions. Nothing is undone
when an instruction is rejected, so the state that a rejection leaves behind is described like any other.
-/

namespace Wasm

namespace Outcome

variable {ε σ α β : Type}

/-- The state that a computation leaves, whether it succeeds or fails. -/
def left : EStateM.Result ε σ α → σ
  | .ok _ s => s
  | .error _ s => s

def isOk : EStateM.Result ε σ α → Bool
  | .ok .. => true
  | .error .. => false

theorem isOk_iff {r : EStateM.Result ε σ α} : isOk r = true ↔ ∃ a s, r = .ok a s := by
  cases r <;> simp [isOk]

end Outcome

open Outcome

/-! ## Operands -/

namespace Frame

/-- An operand of unknown type is found in code that is never reached only. -/
def Tidy (f : Frame) : Prop := Slot.unknown ∈ f.operands → f.unreachable = true

/-- What a step makes of a frame whose block stays open. -/
def Evolves (f later : Frame) : Prop := f.Becomes later ∧ (f.Tidy → later.Tidy)

theorem Evolves.refl (f : Frame) : f.Evolves f := ⟨.refl f, id⟩

theorem Evolves.trans {a b c : Frame} (first : a.Evolves b) (second : b.Evolves c) : a.Evolves c :=
  ⟨first.1.trans second.1, second.2 ∘ first.2⟩

theorem unknown_mem_stacked {types : List ValueType} {below : List Slot} :
    Slot.unknown ∈ stacked types below ↔ Slot.unknown ∈ below := by
  simp [stacked_eq]

theorem tidy_enter (kind : FrameKind) (type : FuncType) : (enter kind type).Tidy := by
  intro unknown
  cases unknown_mem_stacked.mp unknown

theorem Evolves.receive (f : Frame) (types : List ValueType) : f.Evolves (f.receive types) :=
  ⟨f.receive_becomes types, fun tidy unknown => tidy (unknown_mem_stacked.mp unknown)⟩

end Frame

namespace Operate

variable {α β : Type}

/-- Operands taken from a tidy frame: those of unknown type tell that its code is not reached. -/
def Drawn (slots : List Slot) (f : Frame) : Prop := Slot.unknown ∈ slots → f.unreachable = true

/-- What is done to a frame keeps its block as it was opened and its operands tidy, and fails with a type mismatch
only. The conditions `pre` and `post` are about the operands in hand. -/
structure Keeps (pre : Frame → Prop) (m : Operate α) (post : α → Frame → Prop) : Prop where
  becomes : ∀ f : Frame, f.Becomes (left (m f))
  tidy : ∀ f : Frame, f.Tidy → pre f → (left (m f)).Tidy
  gives : ∀ (f : Frame) a f', f.Tidy → pre f → m f = .ok a f' → post a f'
  rejects : ∀ (f : Frame) v f', m f = .error v f' → v.kind = .typeMismatch

variable {pre : Frame → Prop} {m : Operate α} {k : α → Operate β} {mid : α → Frame → Prop} {post : β → Frame → Prop}

theorem Keeps.bind (first : Keeps pre m mid) (second : ∀ a, Keeps (mid a) (k a) post) : Keeps pre (m >>= k) post where
  becomes f := by
    have kept := first.becomes f
    cases one : m f with
    | ok a g =>
      rw [one] at kept
      rw [Outcome.bind_of_ok one]
      exact kept.trans ((second a).becomes g)
    | error v g =>
      rw [one] at kept
      rw [Outcome.bind_of_error one]
      exact kept
  tidy f tidy held := by
    have kept := first.tidy f tidy held
    cases one : m f with
    | ok a g =>
      rw [one] at kept
      rw [Outcome.bind_of_ok one]
      exact (second a).tidy g kept (first.gives f a g tidy held one)
    | error v g =>
      rw [one] at kept
      rw [Outcome.bind_of_error one]
      exact kept
  gives f b f' tidy held done := by
    obtain ⟨a, g, one, two⟩ := Outcome.bind_ok_iff.mp done
    have kept := first.tidy f tidy held
    rw [one] at kept
    exact (second a).gives g b f' kept (first.gives f a g tidy held one) two
  rejects f v f' failed := by
    cases one : m f with
    | ok a g =>
      rw [Outcome.bind_of_ok one] at failed
      exact (second a).rejects g v f' failed
    | error w g =>
      rw [Outcome.bind_of_error one] at failed
      cases failed
      exact first.rejects f v f' one

theorem Keeps.mono {pre' : Frame → Prop} {post' : α → Frame → Prop} (keeps : Keeps pre m mid)
    (weaker : ∀ f, pre' f → pre f) (stronger : ∀ a f, mid a f → post' a f) : Keeps pre' m post' where
  becomes := keeps.becomes
  tidy f tidy held := keeps.tidy f tidy (weaker f held)
  gives f a f' tidy held done := stronger a f' (keeps.gives f a f' tidy (weaker f held) done)
  rejects := keeps.rejects

theorem keeps_throw {v : Violation} (mismatch : v.kind = .typeMismatch) : Keeps pre (throw v : Operate α) mid where
  becomes f := .refl f
  tidy _ tidy _ := tidy
  gives f a f' _ _ done := by cases done
  rejects f w f' failed := by cases failed; exact mismatch

theorem keeps_push (s : Slot) : Keeps (Drawn [s]) (push s) fun _ _ => True where
  becomes f := .operands f _
  tidy f tidy drawn unknown := by
    rcases List.mem_cons.mp unknown with rfl | below
    · exact drawn (List.mem_singleton_self _)
    · exact tidy below
  gives _ _ _ _ _ _ := trivial
  rejects f v f' failed := by cases failed

theorem keeps_pushAll (types : List ValueType) : Keeps pre (pushAll types) fun _ _ => True where
  becomes f := .operands f _
  tidy f tidy _ unknown := tidy (Frame.unknown_mem_stacked.mp unknown)
  gives _ _ _ _ _ _ := trivial
  rejects f v f' failed := by cases failed

theorem keeps_restore (slots : List Slot) : Keeps (Drawn slots) (restore slots) fun _ _ => True where
  becomes f := .operands f _
  tidy f tidy drawn unknown := by
    have found : Slot.unknown ∈ slots.reverse ++ f.operands := by rwa [← List.reverseAux_eq]
    rcases List.mem_append.mp found with above | below
    · exact drawn (List.mem_reverse.mp above)
    · exact tidy below
  gives _ _ _ _ _ _ := trivial
  rejects f v f' failed := by cases failed

theorem keeps_markUnreachable : Keeps pre markUnreachable fun _ _ => True where
  becomes f := ⟨rfl, rfl, rfl, fun _ => rfl⟩
  tidy f _ _ unknown := rfl
  gives _ _ _ _ _ _ := trivial
  rejects f v f' failed := by cases failed

theorem keeps_isUnreachable : Keeps pre isUnreachable fun _ f => pre f where
  becomes f := .refl f
  tidy _ tidy _ := tidy
  gives f a f' _ held done := by cases done; exact held
  rejects f v f' failed := by cases failed

theorem pop_error_iff {f f' : Frame} {v : Violation} :
    pop f = .error v f' ↔ f.operands = [] ∧ f.unreachable = false ∧ v = .underflow ∧ f' = f := by
  unfold pop
  split
  · rename_i own
    simp [own]
  · rename_i own
    cases dead : f.unreachable with
    | true => simp [own]
    | false =>
      simp only [own, Bool.false_eq_true, if_false, EStateM.Result.error.injEq, true_and]
      exact and_congr eq_comm eq_comm

/-- An operand that is popped was drawn like those that are in hand already. -/
theorem keeps_pop (hand : List Slot) : Keeps (Drawn hand) pop fun s => Drawn (s :: hand) where
  becomes f := by
    cases popped : pop f with
    | ok s f' => exact steady_pop popped
    | error v f' =>
      obtain ⟨-, -, -, rfl⟩ := pop_error_iff.mp popped
      exact .refl f'
  tidy f tidy drawn := by
    cases popped : pop f with
    | ok s f' =>
      obtain ⟨ops, own, rfl⟩ | ⟨_, _, _, rfl⟩ := pop_cases popped
      · exact fun unknown => tidy (own ▸ List.mem_cons_of_mem s unknown)
      · exact tidy
    | error v f' =>
      obtain ⟨-, -, -, rfl⟩ := pop_error_iff.mp popped
      exact tidy
  gives f s f' tidy drawn popped := by
    intro unknown
    obtain ⟨ops, own, rfl⟩ | ⟨_, dead, _, rfl⟩ := pop_cases popped
    · rcases List.mem_cons.mp unknown with rfl | before
      · exact tidy (own ▸ List.mem_cons_self)
      · exact drawn before
    · exact dead
  rejects f v f' failed := by
    obtain ⟨-, -, rfl, -⟩ := pop_error_iff.mp failed
    rfl

theorem popExpected_error {t : ValueType} {f f' : Frame} {v : Violation} (failed : popExpected t f = .error v f') :
    pop f = .error v f' ∨ ∃ u, pop f = .ok (.known u) f' ∧ v = .mismatch t u := by
  unfold popExpected at failed
  split at failed
  · cases failed
    exact .inl ‹_›
  · cases failed
  · rename_i u g popped
    split at failed
    · cases failed
      exact .inr ⟨u, popped, rfl⟩
    · cases failed

/-- Comparing the type of an operand leaves the frame that popping it left. -/
theorem left_popExpected (t : ValueType) (f : Frame) : left (popExpected t f) = left (pop f) := by
  cases done : popExpected t f with
  | ok s f' => rw [pop_of_popExpected done]
  | error v f' =>
    rcases popExpected_error done with failed | ⟨u, popped, -⟩
    · rw [failed]
    · rw [popped]; rfl

theorem keeps_popExpected (t : ValueType) (hand : List Slot) :
    Keeps (Drawn hand) (popExpected t) fun s => Drawn (s :: hand) where
  becomes f := left_popExpected t f ▸ (keeps_pop hand).becomes f
  tidy f tidy drawn := left_popExpected t f ▸ (keeps_pop hand).tidy f tidy drawn
  gives f s f' tidy drawn done := (keeps_pop hand).gives f s f' tidy drawn (pop_of_popExpected done)
  rejects f v f' failed := by
    rcases popExpected_error failed with failed | ⟨u, -, rfl⟩
    · exact (keeps_pop hand).rejects f v f' failed
    · rfl

theorem popOnto_cons (t : ValueType) (rest : List ValueType) (popped : List Slot) :
    popOnto (t :: rest) popped = (popExpected t >>= fun s => popOnto rest (s :: popped)) := by
  funext f
  show _ = EStateM.bind _ _ f
  rw [popOnto, EStateM.bind]
  cases popExpected t f <;> rfl

theorem keeps_popOnto (types : List ValueType) (hand : List Slot) : Keeps (Drawn hand) (popOnto types hand) Drawn := by
  induction types generalizing hand with
  | nil =>
    exact {
      becomes := fun f => .refl f
      tidy := fun _ tidy _ => tidy
      gives := fun f slots f' _ drawn done => by cases done; exact drawn
      rejects := fun f v f' failed => by cases failed }
  | cons t rest ih =>
    rw [popOnto_cons]
    exact (keeps_popExpected t hand).bind fun s => ih (s :: hand)

theorem drawn_nil (f : Frame) : Drawn [] f := by
  intro unknown
  cases unknown

theorem keeps_popAll (types : List ValueType) : Keeps (fun _ => True) (popAll types) Drawn :=
  (keeps_popOnto types.reverse []).mono (fun f _ => drawn_nil f) fun _ _ drawn => drawn

theorem keeps_popFirst (t : ValueType) : Keeps (fun _ => True) (popExpected t) fun _ _ => True :=
  (keeps_popExpected t []).mono (fun f _ => drawn_nil f) fun _ _ _ => trivial

theorem keeps_popAny : Keeps (fun _ => True) pop fun s => Drawn [s] :=
  (keeps_pop []).mono (fun f _ => drawn_nil f) fun _ _ drawn => drawn

theorem keeps_apply (type : FuncType) : Keeps (fun _ => True) (apply type) fun _ _ => True :=
  (keeps_popAll type.params).bind fun _ => keeps_pushAll type.results

theorem keeps_leaveFor (types : List ValueType) :
    Keeps (fun _ => True) (do let _ ← popAll types; markUnreachable) fun _ _ => True :=
  (keeps_popAll types).bind fun _ => keeps_markUnreachable

theorem keeps_select : Keeps (fun _ => True) select fun _ _ => True := by
  refine (keeps_popFirst .i32).bind fun _ => ?_
  refine keeps_popAny.bind fun first => (keeps_pop [first]).bind fun second => keeps_isUnreachable.bind fun dead => ?_
  -- the operand put back is one of the two that were popped
  have chosen : Keeps (Drawn [second, first]) (push (if first = .unknown then second else first)) fun _ _ => True := by
    refine (keeps_push _).mono (fun f drawn unknown => drawn ?_) fun _ _ _ => trivial
    split at unknown <;> simp_all
  dsimp only
  split
  · exact chosen
  · split
    · exact keeps_throw rfl
    · split
      · exact chosen
      · exact keeps_throw rfl

theorem keeps_refIsNull : Keeps (fun _ => True) refIsNull fun _ _ => True := by
  refine keeps_popAny.bind fun operand => keeps_isUnreachable.bind fun dead => ?_
  split
  · exact (keeps_push _).mono (fun f _ unknown => by simp at unknown) fun _ _ _ => trivial
  · exact keeps_throw rfl

theorem Keeps.evolves {post : α → Frame → Prop} (keeps : Keeps (fun _ => True) m post) (f : Frame) :
    f.Evolves (left (m f)) :=
  ⟨keeps.becomes f, fun tidy => keeps.tidy f tidy trivial⟩

end Operate

/-! ## Steps -/

/-- The block that an instruction opens. -/
def Instruction.opens : Instruction → Option (FrameKind × BlockType)
  | .block type => some (.block, type)
  | .loop type => some (.loop, type)
  | .if_ type => some (.if_, type)
  | _ => none

namespace Check

/-- Why an instruction may be rejected while a block is open. -/
inductive Objection (Γ : Scope) : Instruction → Violation → Prop where
  | operands {i : Instruction} {v : Violation} (mismatch : v.kind = .typeMismatch) : Objection Γ i v
  | label {i : Instruction} (label : UInt32) : Objection Γ i (.unknown .label label)
  | blockType {i : Instruction} {kind : FrameKind} {type : BlockType} {v : Violation} (opens : i.opens = some (kind, type))
      (illegal : Γ.blockSignature type = .error v) : Objection Γ i v
  | else_ : Objection Γ .else_ .elseWithoutIf
  | return_ (outside : Γ.returns = none) : Objection Γ .return_ .returnOutsideFunction
  | immediates {op : Plain} {v : Violation} (illegal : Γ.signature op = .error v) : Objection Γ (.plain op) v

/-- A computation that acts on the innermost block only and leaves it open, whatever its outcome, and that fails for
one of the given reasons. -/
structure Confined {α : Type} (reasons : Violation → Prop) (m : Check α) : Prop where
  inside : ∀ f outer given, ∃ f', left (m ⟨f :: outer, given⟩) = ⟨f' :: outer, given⟩ ∧ f.Evolves f'
  rejects : ∀ f outer given v c', m ⟨f :: outer, given⟩ = .error v c' → reasons v

namespace Confined

variable {α β : Type} {reasons : Violation → Prop} {m : Check α} {k : α → Check β}

theorem bind (first : Confined reasons m) (second : ∀ a, Confined reasons (k a)) : Confined reasons (m >>= k) where
  inside f outer given := by
    obtain ⟨g, state, kept⟩ := first.inside f outer given
    cases one : m ⟨f :: outer, given⟩ with
    | ok a c =>
      obtain rfl : c = ⟨g :: outer, given⟩ := by rw [one] at state; exact state
      obtain ⟨f', state', kept'⟩ := (second a).inside g outer given
      rw [Outcome.bind_of_ok one]
      exact ⟨f', state', kept.trans kept'⟩
    | error v c =>
      rw [one] at state
      rw [Outcome.bind_of_error one]
      exact ⟨g, state, kept⟩
  rejects f outer given v c' failed := by
    cases one : m ⟨f :: outer, given⟩ with
    | ok a c =>
      obtain ⟨g, state, -⟩ := first.inside f outer given
      obtain rfl : c = ⟨g :: outer, given⟩ := by rw [one] at state; exact state
      rw [Outcome.bind_of_ok one] at failed
      exact (second a).rejects g outer given v c' failed
    | error w c =>
      rw [Outcome.bind_of_error one] at failed
      cases failed
      exact first.rejects f outer given v c' one

theorem pure (a : α) : Confined reasons (Pure.pure a) where
  inside f _ _ := ⟨f, rfl, .refl f⟩
  rejects f outer given v c' failed := by cases failed

theorem throw {v : Violation} (reason : reasons v) : Confined reasons (MonadExcept.throw v : Check α) where
  inside f _ _ := ⟨f, rfl, .refl f⟩
  rejects f outer given w c' failed := by cases failed; exact reason

theorem lift {x : Verdict α} (reason : ∀ v, x = .error v → reasons v) : Confined reasons (liftM x : Check α) := by
  cases x with
  | ok a => exact pure a
  | error v => exact throw (reason v rfl)

theorem innermost {m : Operate α} {post : α → Frame → Prop} (keeps : m.Keeps (fun _ => True) post)
    (mismatch : ∀ v : Violation, v.kind = .typeMismatch → reasons v) : Confined reasons (Check.innermost m) where
  inside f outer given := by
    refine ⟨left (m f), ?_, keeps.evolves f⟩
    unfold Check.innermost
    dsimp only
    cases m f <;> rfl
  rejects f outer given v c' failed := by
    unfold Check.innermost at failed
    dsimp only at failed
    cases done : m f with
    | ok a g => rw [done] at failed; cases failed
    | error w g =>
      rw [done] at failed
      cases failed
      exact mismatch v (keeps.rejects f v g done)

theorem labelTypes (label : UInt32) (reason : reasons (.unknown .label label)) :
    Confined reasons (Check.labelTypes label) where
  inside f outer given := by
    refine ⟨f, ?_, .refl f⟩
    unfold Check.labelTypes
    dsimp only
    split <;> rfl
  rejects f outer given v c' failed := by
    unfold Check.labelTypes at failed
    split at failed
    · cases failed
    · cases failed
      exact reason

end Confined

theorem tableLabels_cons (default : UInt32) (arity : Nat) (label : UInt32) (rest : List UInt32) :
    tableLabels default arity (label :: rest) = (labelTypes label >>= fun types =>
      if types.length ≠ arity then throw (.labelArity label types.length default arity)
      else innermost (Operate.popAll types >>= Operate.restore) >>= fun _ => tableLabels default arity rest) := by
  funext c
  show _ = EStateM.bind _ _ c
  rw [tableLabels, EStateM.bind]
  cases labelTypes label c with
  | error v c => rfl
  | ok types c =>
    dsimp only
    by_cases other : types.length ≠ arity
    · simp only [if_pos other]
      rfl
    · simp only [if_neg other]
      show _ = EStateM.bind _ _ c
      rw [EStateM.bind]
      cases innermost (Operate.popAll types >>= Operate.restore) c <;> rfl

variable {Γ : Scope}

theorem confined_tableLabels {i : Instruction} (default : UInt32) (arity : Nat) (labels : List UInt32) :
    Confined (Objection Γ i) (tableLabels default arity labels) := by
  induction labels with
  | nil => exact .pure ()
  | cons label rest ih =>
    rw [tableLabels_cons]
    refine (Confined.labelTypes label (.label label)).bind fun types => ?_
    split
    · exact .throw (.operands rfl)
    · have restored : Operate.Keeps (fun _ => True) (Operate.popAll types >>= Operate.restore) fun _ _ => True :=
        (Operate.keeps_popAll types).bind Operate.keeps_restore
      exact (Confined.innermost restored fun _ => .operands).bind fun _ => ih

/-- An instruction that opens and closes no block acts on the innermost one only. -/
theorem confined_leaf (Γ : Scope) (i : Leaf) : Confined (Objection Γ i.instruction) (instruction Γ i.instruction) := by
  have act {α : Type} {m : Operate α} {post : α → Frame → Prop} (keeps : m.Keeps (fun _ => True) post) :
      Confined (Objection Γ i.instruction) (innermost m) := .innermost keeps fun _ => .operands
  have index : Confined (Objection Γ i.instruction) (innermost (Operate.popExpected .i32)) :=
    act (Operate.keeps_popFirst .i32)
  cases i with
  | unreachable => exact act Operate.keeps_markUnreachable
  | br label =>
    exact (Confined.labelTypes label (.label label)).bind fun types => act (Operate.keeps_leaveFor types)
  | brIf label =>
    exact index.bind fun _ => (Confined.labelTypes label (.label label)).bind fun types =>
      act (Operate.keeps_apply ⟨types, types⟩)
  | brTable labels default =>
    exact index.bind fun _ => (Confined.labelTypes default (.label default)).bind fun types =>
      (confined_tableLabels default types.length labels).bind fun _ => act (Operate.keeps_leaveFor types)
  | return_ =>
    show Confined _ (returnFrom Γ)
    unfold returnFrom
    cases returns : Γ.returns with
    | none => exact .throw (.return_ returns)
    | some types => exact act (Operate.keeps_leaveFor types)
  | refIsNull => exact act Operate.keeps_refIsNull
  | drop => exact (act Operate.keeps_popAny).bind fun _ => .pure ()
  | select => exact act Operate.keeps_select
  | plain op =>
    exact (Confined.lift fun _ => .immediates).bind fun signature => act (Operate.keeps_apply signature)

/-- What an instruction makes of the open blocks, where a block is open before it. -/
inductive Move : Instruction → (accepted : Bool) → Checker → Checker → Prop where
  /-- The innermost block stays open; that is all that most rejected instructions leave behind. -/
  | inside {i : Instruction} {accepted : Bool} {f f' : Frame} {outer : List Frame} {given : List Slot}
      (leaf : accepted = true → ∃ l : Leaf, i = l.instruction) (evolves : f.Evolves f') :
      Move i accepted ⟨f :: outer, given⟩ ⟨f' :: outer, given⟩
  | opened {i : Instruction} {kind : FrameKind} {block : BlockType} {f f' : Frame} {outer : List Frame}
      {given : List Slot} (opens : i.opens = some (kind, block)) (type : FuncType) (evolves : f.Evolves f') :
      Move i true ⟨f :: outer, given⟩ ⟨.enter kind type :: f' :: outer, given⟩
  | divided {f : Frame} {outer : List Frame} {given : List Slot} (isIf : f.kind = .if_) :
      Move .else_ true ⟨f :: outer, given⟩ ⟨.enter .else_ ⟨f.startTypes, f.endTypes⟩ :: outer, given⟩
  /-- The second part that a conditional block is given at its end does not turn parameters into results. -/
  | refused {f g : Frame} {outer : List Frame} {given : List Slot} (isIf : f.kind = .if_)
      (evolves : (Frame.enter .else_ ⟨f.startTypes, f.endTypes⟩).Evolves g) :
      Move .end_ false ⟨f :: outer, given⟩ ⟨g :: outer, given⟩
  | closed {f : Frame} {outer : List Frame} {given : List Slot} {c' : Checker}
      (gave : give f.endTypes ⟨outer, given⟩ = .ok () c') : Move .end_ true ⟨f :: outer, given⟩ c'

/-- What an instruction does, and why if it is rejected. -/
structure Moves (Γ : Scope) (i : Instruction) (c : Checker) (r : EStateM.Result Violation Checker Unit) : Prop where
  move : Move i (isOk r) c (left r)
  reason : ∀ v c', r = .error v c' → Objection Γ i v

variable {i : Instruction} {f : Frame} {outer : List Frame} {given : List Slot}

/-- What is rejected while it acts on the innermost block leaves that block open. -/
theorem Moves.of_error {v : Violation} {f' : Frame} (evolves : f.Evolves f') (reason : Objection Γ i v) :
    Moves Γ i ⟨f :: outer, given⟩ (.error v ⟨f' :: outer, given⟩) where
  move := by
    refine .inside (fun accepted => ?_) evolves
    cases accepted
  reason w c' same := by
    cases same
    exact reason

theorem moves_leaf (Γ : Scope) (l : Leaf) (f : Frame) (outer : List Frame) (given : List Slot) :
    Moves Γ l.instruction ⟨f :: outer, given⟩ (instruction Γ l.instruction ⟨f :: outer, given⟩) where
  move := by
    obtain ⟨f', state, evolves⟩ := (confined_leaf Γ l).inside f outer given
    rw [state]
    exact .inside (fun _ => ⟨l, rfl⟩) evolves
  reason v c' := (confined_leaf Γ l).rejects f outer given v c'

/-- What a block asks of the block around it before it is entered. -/
def opening (Γ : Scope) (kind : FrameKind) (type : BlockType) : Check FuncType := do
  let signature ← Γ.blockSignature type
  if kind = .if_ then
    let _ ← innermost (Operate.popExpected .i32)
  let _ ← innermost (Operate.popAll signature.params)
  pure signature

theorem openBlock_eq (Γ : Scope) (kind : FrameKind) (type : BlockType) :
    openBlock Γ kind type = (opening Γ kind type >>= enter kind) := by
  unfold openBlock opening
  by_cases isIf : kind = .if_ <;> simp [isIf, bind_assoc]

theorem confined_opening {kind : FrameKind} {type : BlockType} (opens : i.opens = some (kind, type)) :
    Confined (Objection Γ i) (opening Γ kind type) := by
  have act {α : Type} {m : Operate α} {post : α → Frame → Prop} (keeps : m.Keeps (fun _ => True) post) :
      Confined (Objection Γ i) (innermost m) := .innermost keeps fun _ => .operands
  refine (Confined.lift fun _ => .blockType opens).bind fun signature => ?_
  split
  · exact (act (Operate.keeps_popFirst .i32)).bind fun _ => (act (Operate.keeps_popAll _)).bind fun _ => .pure _
  · exact (act (Operate.keeps_popAll _)).bind fun _ => .pure _

/-- A block that is opened takes its operands from the block around it. -/
theorem moves_openBlock {kind : FrameKind} {type : BlockType} (opens : i.opens = some (kind, type)) :
    Moves Γ i ⟨f :: outer, given⟩ (openBlock Γ kind type ⟨f :: outer, given⟩) := by
  have confined := confined_opening (Γ := Γ) opens
  obtain ⟨f', state, evolves⟩ := confined.inside f outer given
  rw [openBlock_eq]
  cases one : opening Γ kind type ⟨f :: outer, given⟩ with
  | ok signature c =>
    obtain rfl : c = ⟨f' :: outer, given⟩ := by rw [one] at state; exact state
    rw [Outcome.bind_of_ok one]
    exact ⟨.opened opens signature evolves, fun v c' failed => by cases failed⟩
  | error v c =>
    obtain rfl : c = ⟨f' :: outer, given⟩ := by rw [one] at state; exact state
    rw [Outcome.bind_of_error one]
    exact .of_error evolves (confined.rejects f outer given v _ one)

/-- A block that cannot be closed stays open. -/
theorem leave_error {v : Violation} {c' : Checker} (failed : leave ⟨f :: outer, given⟩ = .error v c') :
    v.kind = .typeMismatch ∧ ∃ f', c' = ⟨f' :: outer, given⟩ ∧ f.Evolves f' := by
  have keeps := Operate.keeps_popAll f.endTypes
  have evolves := keeps.evolves f
  unfold leave at failed
  dsimp only at failed
  cases done : Operate.popAll f.endTypes f with
  | error w f' =>
    rw [done] at failed evolves
    cases failed
    exact ⟨keeps.rejects f v f' done, f', rfl, evolves⟩
  | ok slots f' =>
    rw [done] at failed evolves
    dsimp only at failed
    split at failed
    · cases failed
    · cases failed
      exact ⟨rfl, f', rfl, evolves⟩

theorem moves_beginElse :
    Moves Γ .else_ ⟨f :: outer, given⟩ (beginElse ⟨f :: outer, given⟩) := by
  by_cases isIf : f.kind = .if_
  · cases closed : leave ⟨f :: outer, given⟩ with
    | error v c =>
      obtain ⟨mismatch, f', rfl, evolves⟩ := leave_error closed
      simp only [beginElse, isIf, if_true, closed]
      exact .of_error evolves (.operands mismatch)
    | ok g c =>
      obtain ⟨_, starts, ends, _⟩ := leave_becomes closed
      obtain ⟨rfl, -⟩ := leave_ok_iff.mp closed
      simp only [beginElse, isIf, if_true, closed, enter, starts, ends]
      exact ⟨.divided isIf, fun v c' failed => by cases failed⟩
  · simp only [beginElse, isIf, if_false]
    exact .of_error (.refl f) .else_

theorem moves_closeBlock :
    Moves Γ .end_ ⟨f :: outer, given⟩ (closeBlock ⟨f :: outer, given⟩) := by
  have gives (types : List ValueType) (c : Checker) : ∃ c', give types c = .ok () c' := by
    unfold give
    split <;> exact ⟨_, rfl⟩
  unfold closeBlock
  cases closed : leave ⟨f :: outer, given⟩ with
  | error v c =>
    obtain ⟨mismatch, f', rfl, evolves⟩ := leave_error closed
    rw [Outcome.bind_of_error closed]
    exact .of_error evolves (.operands mismatch)
  | ok g c =>
    obtain ⟨kind, starts, ends, _⟩ := leave_becomes closed
    obtain ⟨rfl, -⟩ := leave_ok_iff.mp closed
    obtain ⟨c', gave⟩ := gives f.endTypes ⟨outer, given⟩
    have done : Moves Γ .end_ ⟨f :: outer, given⟩ (give f.endTypes ⟨outer, given⟩) := by
      rw [gave]
      exact ⟨.closed gave, fun v c' failed => by cases failed⟩
    rw [Outcome.bind_of_ok closed, kind, starts, ends]
    by_cases isIf : f.kind = .if_
    · -- the second part that is missing is entered and left at once
      simp only [isIf, if_true]
      have entered : enter .else_ ⟨f.startTypes, f.endTypes⟩ ⟨outer, given⟩ =
          .ok () ⟨.enter .else_ ⟨f.startTypes, f.endTypes⟩ :: outer, given⟩ := rfl
      rw [Outcome.bind_of_ok entered]
      cases again : leave ⟨.enter .else_ ⟨f.startTypes, f.endTypes⟩ :: outer, given⟩ with
      | error v c =>
        obtain ⟨mismatch, h, rfl, evolves⟩ := leave_error again
        rw [Outcome.bind_of_error again]
        refine ⟨.refused isIf evolves, fun w c' failed => ?_⟩
        cases failed
        exact .operands mismatch
      | ok h c =>
        obtain ⟨rfl, -⟩ := leave_ok_iff.mp again
        rw [Outcome.bind_of_ok again]
        exact done
    · simp only [isIf, if_false]
      exact done

/-- Every instruction makes one of the moves, for one of the reasons if it is rejected. -/
theorem step_moves (Γ : Scope) (i : Instruction) (f : Frame) (outer : List Frame) (given : List Slot) :
    Moves Γ i ⟨f :: outer, given⟩ (step Γ i ⟨f :: outer, given⟩) := by
  rw [step_eq]
  cases i with
  | block type => exact moves_openBlock rfl
  | loop type => exact moves_openBlock rfl
  | if_ type => exact moves_openBlock rfl
  | else_ => exact moves_beginElse
  | end_ => exact moves_closeBlock
  | unreachable => exact moves_leaf Γ .unreachable f outer given
  | br label => exact moves_leaf Γ (.br label) f outer given
  | brIf label => exact moves_leaf Γ (.brIf label) f outer given
  | brTable labels default => exact moves_leaf Γ (.brTable labels default) f outer given
  | return_ => exact moves_leaf Γ .return_ f outer given
  | refIsNull => exact moves_leaf Γ .refIsNull f outer given
  | drop => exact moves_leaf Γ .drop f outer given
  | select => exact moves_leaf Γ .select f outer given
  | plain op => exact moves_leaf Γ (.plain op) f outer given

end Check

end Wasm
