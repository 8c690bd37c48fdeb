import Wasm.Proofs.Typing.Strictness

/-! # Immediates

What an instruction carries beside its operands is checked wherever the instruction stands: indices are in range, tags
and lanes are legal, labels name open blocks. In code that is never reached nothing else is checked, so there an
instruction is accepted exactly if its immediates are legal.
-/

namespace Wasm

open Outcome

/-! ## Legal immediates -/

/-- The immediates of a plain instruction are legal in a scope. -/
def Plain.Legal (Γ : Scope) : Plain → Prop
  | .call func => ∃ type, Γ.HasFunction func type
  | .callIndirect type table => Γ.HasTable table .func ∧ ∃ t, Γ.HasSignature type t
  | .refNull tag => ∃ t : RefType, tag = t.tag
  | .refFunc func => Γ.CanReference func
  | .selectTyped tags => ∃ t : ValueType, tags = [t.tag]
  | .localGet index | .localSet index | .localTee index => ∃ t, Γ.HasLocal index t
  | .globalGet index => ∃ t isMutable, Γ.HasGlobal index t isMutable
  | .globalSet index => ∃ t, Γ.HasGlobal index t true
  | .tableGet table | .tableSet table | .tableSize table | .tableGrow table | .tableFill table =>
    ∃ t, Γ.HasTable table t
  | .tableCopy dst src => ∃ t, Γ.HasTable dst t ∧ Γ.HasTable src t
  | .tableInit elem table => ∃ t, Γ.HasTable table t ∧ Γ.HasElement elem t
  | .elemDrop elem => ∃ t, Γ.HasElement elem t
  | .load op arg => Γ.HasMemory ∧ ∃ extent t, op.Loads extent t ∧ arg.Aligned extent
  | .store op arg => Γ.HasMemory ∧ ∃ extent t, op.Stores extent t ∧ arg.Aligned extent
  | .memorySize | .memoryGrow | .memoryFill | .memoryCopy => Γ.HasMemory
  | .memoryInit data => Γ.HasMemory ∧ Γ.HasData data
  | .dataDrop data => Γ.HasData data
  | .shuffle lanes => ∀ lane ∈ lanes.toList, lane < 32
  | .vector sub => ∃ kind ts us, VectorOp.kind? sub.toNat = some kind ∧ kind.HasType ts us
  | .vectorLane sub lane => ∃ shape : Shape, lane < shape.lanes ∧
      (VectorOp.kind? sub.toNat = some (.extract shape) ∨ VectorOp.kind? sub.toNat = some (.replace shape))
  | .vectorMemory sub arg => Γ.HasMemory ∧ ∃ extent, arg.Aligned extent ∧
      (VectorOp.kind? sub.toNat = some (.load extent) ∨ VectorOp.kind? sub.toNat = some (.store extent))
  | .vectorMemoryLane sub arg lane => Γ.HasMemory ∧ ∃ extent, arg.Aligned extent ∧ extent.HasLane lane ∧
      (VectorOp.kind? sub.toNat = some (.loadLane extent) ∨ VectorOp.kind? sub.toNat = some (.storeLane extent))
  | .nop | .i32Const _ | .i64Const _ | .f32Const _ | .f64Const _ | .numeric _ | .v128Const _ => True

def BlockType.Legal (Γ : Scope) : BlockType → Prop
  | .empty => True
  | .value tag => ∃ t : ValueType, tag = t.tag
  | .indexed index => ∃ type, Γ.HasSignature index type

/-- The immediates of an instruction are legal in a scope and inside open blocks. -/
def Instruction.Legal (Γ : Scope) (frames : List Frame) : Instruction → Prop
  | .block type | .loop type | .if_ type => type.Legal Γ
  | .br label | .brIf label => ∃ f, frames[label.toNat]? = some f
  | .brTable targets default => ∃ f, frames[default.toNat]? = some f ∧
      ∀ label ∈ targets, ∃ g, frames[label.toNat]? = some g ∧ g.labelTypes.length = f.labelTypes.length
  | .return_ => ∃ types, Γ.returns = some types
  | .plain op => op.Legal Γ
  | .unreachable | .else_ | .end_ | .drop | .select | .refIsNull => True

/-! ### Signatures -/

namespace Plain

variable {Γ : Scope} {op : Plain}

theorem HasType.legal {ts us : List ValueType} (typed : op.HasType Γ ts us) : op.Legal Γ := by
  cases typed with
  | nop | i32Const | i64Const | f32Const | f64Const | numeric | v128Const => trivial
  | call known | localGet known | localSet known | localTee known | tableGet known | tableSet known | tableSize known
  | tableGrow known | tableFill known | elemDrop known | globalSet known => exact ⟨_, known⟩
  | callIndirect callable known => exact ⟨callable, _, known⟩
  | refNull t | selectTyped t => exact ⟨t, rfl⟩
  | refFunc known | dataDrop known | memorySize known | memoryGrow known | memoryFill known | memoryCopy known
  | shuffle known => exact known
  | globalGet known => exact ⟨_, _, known⟩
  | tableCopy first second | tableInit first second => exact ⟨_, first, second⟩
  | load memory touched aligned | store memory touched aligned => exact ⟨memory, _, _, touched, aligned⟩
  | memoryInit memory known => exact ⟨memory, known⟩
  | vector assigned typed => exact ⟨_, _, _, assigned, typed⟩
  | extractLane assigned inRange => exact ⟨_, inRange, .inl assigned⟩
  | replaceLane assigned inRange => exact ⟨_, inRange, .inr assigned⟩
  | vectorLoad assigned memory aligned => exact ⟨memory, _, aligned, .inl assigned⟩
  | vectorStore assigned memory aligned => exact ⟨memory, _, aligned, .inr assigned⟩
  | loadLane assigned memory aligned inRange => exact ⟨memory, _, aligned, inRange, .inl assigned⟩
  | storeLane assigned memory aligned inRange => exact ⟨memory, _, aligned, inRange, .inr assigned⟩

theorem Legal.hasType (legal : op.Legal Γ) : ∃ ts us, op.HasType Γ ts us := by
  cases op with
  | nop => exact ⟨_, _, .nop⟩
  | call =>
    obtain ⟨_, known⟩ := legal
    exact ⟨_, _, .call known⟩
  | callIndirect =>
    obtain ⟨callable, _, known⟩ := legal
    exact ⟨_, _, .callIndirect callable known⟩
  | refNull =>
    obtain ⟨t, rfl⟩ := legal
    exact ⟨_, _, .refNull t⟩
  | refFunc => exact ⟨_, _, .refFunc legal⟩
  | selectTyped =>
    obtain ⟨t, rfl⟩ := legal
    exact ⟨_, _, .selectTyped t⟩
  | localGet =>
    obtain ⟨_, known⟩ := legal
    exact ⟨_, _, .localGet known⟩
  | localSet =>
    obtain ⟨_, known⟩ := legal
    exact ⟨_, _, .localSet known⟩
  | localTee =>
    obtain ⟨_, known⟩ := legal
    exact ⟨_, _, .localTee known⟩
  | globalGet =>
    obtain ⟨_, _, known⟩ := legal
    exact ⟨_, _, .globalGet known⟩
  | globalSet =>
    obtain ⟨_, known⟩ := legal
    exact ⟨_, _, .globalSet known⟩
  | tableGet =>
    obtain ⟨_, known⟩ := legal
    exact ⟨_, _, .tableGet known⟩
  | tableSet =>
    obtain ⟨_, known⟩ := legal
    exact ⟨_, _, .tableSet known⟩
  | tableSize =>
    obtain ⟨_, known⟩ := legal
    exact ⟨_, _, .tableSize known⟩
  | tableGrow =>
    obtain ⟨_, known⟩ := legal
    exact ⟨_, _, .tableGrow known⟩
  | tableFill =>
    obtain ⟨_, known⟩ := legal
    exact ⟨_, _, .tableFill known⟩
  | tableCopy =>
    obtain ⟨_, target, source⟩ := legal
    exact ⟨_, _, .tableCopy target source⟩
  | tableInit =>
    obtain ⟨_, target, source⟩ := legal
    exact ⟨_, _, .tableInit target source⟩
  | elemDrop =>
    obtain ⟨_, known⟩ := legal
    exact ⟨_, _, .elemDrop known⟩
  | load =>
    obtain ⟨memory, _, _, loads, aligned⟩ := legal
    exact ⟨_, _, .load memory loads aligned⟩
  | store =>
    obtain ⟨memory, _, _, stores, aligned⟩ := legal
    exact ⟨_, _, .store memory stores aligned⟩
  | memorySize => exact ⟨_, _, .memorySize legal⟩
  | memoryGrow => exact ⟨_, _, .memoryGrow legal⟩
  | memoryFill => exact ⟨_, _, .memoryFill legal⟩
  | memoryCopy => exact ⟨_, _, .memoryCopy legal⟩
  | memoryInit => exact ⟨_, _, .memoryInit legal.1 legal.2⟩
  | dataDrop => exact ⟨_, _, .dataDrop legal⟩
  | i32Const value => exact ⟨_, _, .i32Const value⟩
  | i64Const value => exact ⟨_, _, .i64Const value⟩
  | f32Const bits => exact ⟨_, _, .f32Const bits⟩
  | f64Const bits => exact ⟨_, _, .f64Const bits⟩
  | numeric op => exact ⟨_, _, .numeric op.hasType_signature⟩
  | v128Const bytes => exact ⟨_, _, .v128Const bytes⟩
  | shuffle => exact ⟨_, _, .shuffle legal⟩
  | vector =>
    obtain ⟨_, _, _, assigned, typed⟩ := legal
    exact ⟨_, _, .vector assigned typed⟩
  | vectorLane =>
    obtain ⟨_, inRange, assigned | assigned⟩ := legal
    · exact ⟨_, _, .extractLane assigned inRange⟩
    · exact ⟨_, _, .replaceLane assigned inRange⟩
  | vectorMemory =>
    obtain ⟨memory, _, aligned, assigned | assigned⟩ := legal
    · exact ⟨_, _, .vectorLoad assigned memory aligned⟩
    · exact ⟨_, _, .vectorStore assigned memory aligned⟩
  | vectorMemoryLane =>
    obtain ⟨memory, _, aligned, inRange, assigned | assigned⟩ := legal
    · exact ⟨_, _, .loadLane assigned memory aligned inRange⟩
    · exact ⟨_, _, .storeLane assigned memory aligned inRange⟩

/-- The immediates are legal exactly if the instruction has a signature. -/
theorem legal_iff : op.Legal Γ ↔ ∃ type, Γ.signature op = .ok type := by
  constructor
  · intro legal
    obtain ⟨ts, us, typed⟩ := legal.hasType
    exact ⟨⟨ts, us⟩, typed.signature⟩
  · rintro ⟨type, found⟩
    exact (Scope.hasType_of_signature found).legal

end Plain

theorem BlockType.legal_iff {Γ : Scope} {type : BlockType} : type.Legal Γ ↔ ∃ t, Γ.blockSignature type = .ok t := by
  cases type with
  | empty => exact iff_of_true trivial ⟨_, rfl⟩
  | value tag =>
    simp only [Legal, Scope.blockSignature, Verdict.bind_ok_iff, ValueType.check_ok_iff, Verdict.pure_ok_iff]
    constructor
    · rintro ⟨t, same⟩
      exact ⟨_, t, same, rfl⟩
    · rintro ⟨_, t, same, rfl⟩
      exact ⟨t, same⟩
  | indexed index => exact exists_congr fun _ => Scope.type_ok_iff.symm

/-! ## Operands -/

/-- Code that is reached later in a block was reached before. -/
theorem Frame.Becomes.live {f f' : Frame} (becomes : f.Becomes f') (live : f'.unreachable = false) :
    f.unreachable = false := by
  by_contra dead
  rw [becomes.2.2.2 (eq_true_of_ne_false dead)] at live
  cases live

namespace Operate

variable {α β : Type}

/-- What is done to operands fails only in code that is reached. -/
def Lenient (m : Operate α) : Prop := ∀ f v f', m f = .error v f' → f.unreachable = false

theorem Lenient.bind {m : Operate α} {k : α → Operate β} (first : m.Lenient) (steady : m.Steady)
    (second : ∀ a, (k a).Lenient) : (m >>= k).Lenient := by
  intro f v f' failed
  cases one : m f with
  | error w g => exact first f w g one
  | ok a g =>
    rw [bind_of_ok one] at failed
    exact (steady one).live (second a g v f' failed)

/-- What cannot fail. -/
theorem lenient_of_ok {m : Operate α} (succeeds : ∀ f, isOk (m f) = true) : m.Lenient := by
  intro f v f' failed
  have done := succeeds f
  rw [failed] at done
  cases done

theorem lenient_push (s : Slot) : (push s).Lenient := lenient_of_ok fun _ => rfl

theorem lenient_pushAll (types : List ValueType) : (pushAll types).Lenient := lenient_of_ok fun _ => rfl

theorem lenient_restore (slots : List Slot) : (restore slots).Lenient := lenient_of_ok fun _ => rfl

theorem lenient_markUnreachable : markUnreachable.Lenient := lenient_of_ok fun _ => rfl

theorem lenient_pop : pop.Lenient := fun _ _ _ failed => (pop_error_iff.mp failed).2.1

theorem lenient_popExpected (t : ValueType) : (popExpected t).Lenient := by
  intro f v f' failed
  cases popped : pop f with
  | error w g => exact lenient_pop f w g popped
  | ok s g =>
    unfold popExpected at failed
    rw [popped] at failed
    cases s with
    | unknown => cases failed
    | known actual =>
      dsimp only at failed
      split at failed
      · rename_i differs
        exact (steady_pop popped).live differs.2
      · cases failed

theorem lenient_popOnto (types : List ValueType) (popped : List Slot) : (popOnto types popped).Lenient := by
  induction types generalizing popped with
  | nil => exact lenient_of_ok fun _ => rfl
  | cons t rest ih =>
    rw [popOnto_cons]
    exact (lenient_popExpected t).bind (steady_popExpected t) fun s => ih (s :: popped)

theorem lenient_popAll (types : List ValueType) : (popAll types).Lenient := lenient_popOnto types.reverse []

theorem lenient_apply (type : FuncType) : (apply type).Lenient :=
  (lenient_popAll type.params).bind (steady_popAll type.params) fun _ => lenient_pushAll type.results

theorem lenient_leaveFor (types : List ValueType) : (do let _ ← popAll types; markUnreachable).Lenient :=
  (lenient_popAll types).bind (steady_popAll types) fun _ => lenient_markUnreachable

/-- A rule that asks whether code is reached fails for what it does if not. -/
theorem lenient_isUnreachable {k : Bool → Operate β} (dead : (k true).Lenient) : (isUnreachable >>= k).Lenient := by
  intro f v f' failed
  have asked : isUnreachable f = .ok f.unreachable f := rfl
  rw [bind_of_ok asked] at failed
  cases reached : f.unreachable with
  | false => rfl
  | true =>
    rw [reached] at failed
    exact reached.symm.trans (dead f v f' failed)

theorem lenient_select : select.Lenient := by
  refine (lenient_popExpected .i32).bind (steady_popExpected .i32) fun _ => lenient_pop.bind steady_pop fun first => ?_
  exact lenient_pop.bind steady_pop fun second => lenient_isUnreachable (lenient_push _)

theorem lenient_refIsNull : refIsNull.Lenient := by
  refine lenient_pop.bind steady_pop fun operand => lenient_isUnreachable ?_
  rw [Bool.or_true]
  exact lenient_push _

end Operate

/-! ## Rules -/

namespace Check

variable {α β : Type} {Γ : Scope} {f : Frame} {outer : List Frame} {given : List Slot}

/-- What becomes of immediates and operands in a block: success means that the immediates are legal, and if they are,
failure means that operands do not suit in code that is reached. -/
def Asks (legal : Prop) (f : Frame) : EStateM.Result Violation Checker α → Prop
  | .ok .. => legal
  | .error v _ => legal → v.kind = .typeMismatch ∧ f.unreachable = false

namespace Asks

theorem mono {p q : Prop} {r : EStateM.Result Violation Checker α} (asks : Asks p f r) (same : p ↔ q) : Asks q f r := by
  rwa [← propext same]

theorem done (a : α) (c : Checker) : Asks True f (.ok a c) := trivial

theorem of_becomes {f' : Frame} {legal : Prop} {r : EStateM.Result Violation Checker α} (becomes : f.Becomes f')
    (asks : Asks legal f' r) : Asks legal f r := by
  cases r with
  | ok a c => exact asks
  | error v c => exact fun holds => ⟨(asks holds).1, becomes.live (asks holds).2⟩

/-- A lookup leaves the state as it is, and what it does not find makes the immediates illegal. -/
theorem looked {m : Check α} {k : α → Check β} {c : Checker} {found : α → Prop} {legal : α → Prop}
    (found_iff : ∀ a c', m c = .ok a c' ↔ found a ∧ c = c') (rest : ∀ a, found a → Asks (legal a) f (k a c)) :
    Asks (∃ a, found a ∧ legal a) f ((m >>= k) c) := by
  cases one : m c with
  | error v c' =>
    rw [bind_of_error one]
    rintro ⟨a, here, -⟩
    rw [(found_iff a c).mpr ⟨here, rfl⟩] at one
    cases one
  | ok a c' =>
    obtain ⟨here, rfl⟩ := (found_iff a c').mp one
    rw [bind_of_ok one]
    refine (rest a here).mono ⟨fun legal => ⟨a, here, legal⟩, ?_⟩
    rintro ⟨b, there, legal⟩
    rw [(found_iff b c).mpr ⟨there, rfl⟩] at one
    cases one
    exact legal

/-- Operands are taken or given before the rest. -/
theorem operands {m : Operate α} {post : α → Frame → Prop} {k : α → Check β} {legal : Prop}
    (keeps : m.Keeps (fun _ => True) post) (lenient : m.Lenient)
    (rest : ∀ a f', f.Becomes f' → Asks legal f' (k a ⟨f' :: outer, given⟩)) :
    Asks legal f ((innermost m >>= k) ⟨f :: outer, given⟩) := by
  have becomes := keeps.becomes f
  cases one : m f with
  | error v f' =>
    have failed : innermost m ⟨f :: outer, given⟩ = .error v ⟨f' :: outer, given⟩ := by simp [innermost, one]
    rw [bind_of_error failed]
    exact fun _ => ⟨keeps.rejects f v f' one, lenient f v f' one⟩
  | ok a f' =>
    rw [one] at becomes
    rw [bind_of_ok (innermost_ok_iff.mpr ⟨f', one, rfl⟩)]
    exact of_becomes becomes (rest a f' becomes)

theorem operands_last {m : Operate Unit} {post : Unit → Frame → Prop} (keeps : m.Keeps (fun _ => True) post)
    (lenient : m.Lenient) : Asks True f (innermost m ⟨f :: outer, given⟩) := by
  have asks : Asks True f ((innermost m >>= fun _ => pure ()) ⟨f :: outer, given⟩) :=
    operands keeps lenient fun _ _ _ => done () _
  rwa [bind_pure_unit] at asks

/-- Each target of a branch table is an open block whose label takes as many operands as the default one. -/
theorem tableLabels {k : Unit → Check β} {legal : Prop} (default : UInt32) (arity : Nat) (targets : List UInt32)
    (rest : ∀ f', f.Becomes f' → Asks legal f' (k () ⟨f' :: outer, given⟩)) :
    Asks ((∀ label ∈ targets, ∃ types, (labels (f :: outer))[label.toNat]? = some types ∧ types.length = arity) ∧ legal)
      f ((tableLabels default arity targets >>= k) ⟨f :: outer, given⟩) := by
  induction targets generalizing f with
  | nil => exact (rest f (.refl f)).mono (by simp)
  | cons label targets ih =>
    let others := ∀ label ∈ targets, ∃ types, (labels (f :: outer))[label.toNat]? = some types ∧ types.length = arity
    rw [tableLabels_cons, bind_assoc]
    refine mono (p := ∃ types, (labels (f :: outer))[label.toNat]? = some types ∧ types.length = arity ∧
      others ∧ legal) ?_ ?_
    · refine looked (fun types c' => labelTypes_ok_iff) fun types _ => ?_
      by_cases same : types.length = arity
      · simp only [same, ne_eq, not_true, if_false, true_and, bind_assoc]
        refine operands ((Operate.keeps_popAll types).bind fun slots => Operate.keeps_restore slots)
          ((Operate.lenient_popAll types).bind (Operate.steady_popAll types) fun slots => Operate.lenient_restore slots)
          fun _ f' becomes => ?_
        have asks := ih fun f'' later => rest f'' (becomes.trans later)
        rwa [labels_of_becomes outer becomes] at asks
      · rw [if_pos same]
        exact fun legal => absurd legal.1 same
    · rw [List.forall_mem_cons]
      constructor
      · rintro ⟨types, target, same, others, legal⟩
        exact ⟨⟨⟨types, target, same⟩, others⟩, legal⟩
      · rintro ⟨⟨⟨types, target, same⟩, others⟩, legal⟩
        exact ⟨types, target, same, others, legal⟩

end Asks

/-- Labels and the blocks that they name. -/
theorem label_iff {frames : List Frame} {label : UInt32} {p : List ValueType → Prop} :
    (∃ types, (labels frames)[label.toNat]? = some types ∧ p types) ↔
      ∃ f, frames[label.toNat]? = some f ∧ p f.labelTypes := by
  simp only [labels, List.getElem?_map, Option.map_eq_some_iff]
  constructor
  · rintro ⟨_, ⟨f, found, rfl⟩, held⟩
    exact ⟨f, found, held⟩
  · rintro ⟨f, found, held⟩
    exact ⟨_, ⟨f, found, rfl⟩, held⟩

theorem asks_openBlock (kind : FrameKind) (type : BlockType) :
    Asks (type.Legal Γ) f (openBlock Γ kind type ⟨f :: outer, given⟩) := by
  have opened (signature : FuncType) (f : Frame) :
      Asks True f
        ((innermost (Operate.popAll signature.params) >>= fun _ => enter kind signature) ⟨f :: outer, given⟩) :=
    .operands (Operate.keeps_popAll _) (Operate.lenient_popAll _) fun _ _ _ => .done () _
  have asks : Asks (∃ signature, Γ.blockSignature type = .ok signature ∧ True) f
      (openBlock Γ kind type ⟨f :: outer, given⟩) := by
    refine .looked (fun signature c' => lift_ok_iff) fun signature _ => ?_
    by_cases conditional : kind = .if_
    · simp only [conditional, if_true]
      refine .operands (Operate.keeps_popFirst .i32) (Operate.lenient_popExpected .i32) fun _ f' _ => ?_
      exact conditional ▸ opened signature f'
    · simp only [conditional, if_false]
      exact opened signature f
  simpa [BlockType.legal_iff] using asks

theorem asks_instruction {i : Instruction} (notElse : i ≠ .else_) (notEnd : i ≠ .end_) :
    Asks (i.Legal Γ (f :: outer)) f (instruction Γ i ⟨f :: outer, given⟩) := by
  cases i with
  | unreachable => exact .operands_last Operate.keeps_markUnreachable Operate.lenient_markUnreachable
  | block type => exact asks_openBlock .block type
  | loop type => exact asks_openBlock .loop type
  | if_ type => exact asks_openBlock .if_ type
  | else_ => exact absurd rfl notElse
  | end_ => exact absurd rfl notEnd
  | br label =>
    refine (Asks.looked (fun types c' => labelTypes_ok_iff) fun types _ =>
      .operands_last (Operate.keeps_leaveFor types) (Operate.lenient_leaveFor types)).mono ?_
    rw [label_iff]
    simp [Instruction.Legal]
  | brIf label =>
    refine .operands (Operate.keeps_popFirst .i32) (Operate.lenient_popExpected .i32) fun _ f' becomes => ?_
    refine (Asks.looked (fun types c' => labelTypes_ok_iff) fun types _ =>
      .operands_last (Operate.keeps_apply _) (Operate.lenient_apply _)).mono ?_
    rw [labels_of_becomes outer becomes, label_iff]
    simp [Instruction.Legal]
  | brTable targets default =>
    refine .operands (Operate.keeps_popFirst .i32) (Operate.lenient_popExpected .i32) fun _ f' becomes => ?_
    refine (Asks.looked (fun types c' => labelTypes_ok_iff) fun types _ =>
      .tableLabels default types.length targets fun f'' _ =>
        .operands_last (Operate.keeps_leaveFor types) (Operate.lenient_leaveFor types)).mono ?_
    simp only [labels_of_becomes outer becomes, label_iff, and_true]
    rfl
  | return_ =>
    unfold instruction returnFrom
    cases returns : Γ.returns with
    | none =>
      rintro ⟨types, same⟩
      rw [returns] at same
      cases same
    | some types =>
      have legal : Instruction.Legal Γ (f :: outer) .return_ := ⟨types, returns⟩
      exact (Asks.operands_last (Operate.keeps_leaveFor types) (Operate.lenient_leaveFor types)).mono (by simp [legal])
  | refIsNull => exact .operands_last Operate.keeps_refIsNull Operate.lenient_refIsNull
  | drop => exact .operands Operate.keeps_popAny Operate.lenient_pop fun _ _ _ => .done () _
  | select => exact .operands_last Operate.keeps_select Operate.lenient_select
  | plain op =>
    refine (Asks.looked (fun type c' => lift_ok_iff) fun type _ =>
      .operands_last (Operate.keeps_apply type) (Operate.lenient_apply type)).mono ?_
    simp [Instruction.Legal, Plain.legal_iff]

/-- Wherever an instruction stands that neither divides nor closes a block, it is accepted only if its immediates are
legal. In code that is never reached it is accepted if they are. So an instruction with legal immediates is rejected for
its operands only, and only in code that is reached. -/
theorem immediates_always_checked {c : Checker} {i : Instruction} (unended : c.isEnded = false) (notElse : i ≠ .else_)
    (notEnd : i ≠ .end_) :
    (∀ c', step Γ i c = .ok () c' → i.Legal Γ c.frames) ∧
    (c.isDead = true → ((∃ c', step Γ i c = .ok () c') ↔ i.Legal Γ c.frames)) ∧
    ∀ v c', step Γ i c = .error v c' → i.Legal Γ c.frames → v.kind = .typeMismatch ∧ c.isDead = false := by
  obtain ⟨_ | ⟨f, outer⟩, given⟩ := c
  · cases unended
  · have asks : Asks (i.Legal Γ (f :: outer)) f (step Γ i ⟨f :: outer, given⟩) := asks_instruction notElse notEnd
    cases ran : step Γ i ⟨f :: outer, given⟩ with
    | ok u c' =>
      rw [ran] at asks
      refine ⟨fun _ _ => asks, fun _ => iff_of_true ⟨c', rfl⟩ asks, fun v c'' failed => ?_⟩
      cases failed
    | error v c' =>
      rw [ran] at asks
      refine ⟨fun c'' done => ?_, fun dead => ⟨?_, fun legal => ?_⟩, ?_⟩
      · cases done
      · rintro ⟨c'', done⟩
        cases done
      · have live : f.unreachable = false := (asks legal).2
        cases live.symm.trans dead
      · rintro _ _ ⟨⟩ legal
        exact asks legal

/-- In code that is never reached, a branch table whose labels take operands of different types, neither of them the
type of the operand that is there. -/
theorem immediates_always_checked_branchTable :
    Checker.isEnded ⟨[⟨.block, [], [.i32], [.known .f64], true⟩, ⟨.function, [], [.i64], [], false⟩], []⟩ = false ∧
      ∃ c', step (.constant {}) (.brTable [0] 1)
        ⟨[⟨.block, [], [.i32], [.known .f64], true⟩, ⟨.function, [], [.i64], [], false⟩], []⟩ = .ok () c' := by
  have legal : Instruction.Legal (.constant {})
      [⟨.block, [], [.i32], [.known .f64], true⟩, ⟨.function, [], [.i64], [], false⟩] (.brTable [0] 1) := by
    refine ⟨_, rfl, ?_⟩
    rw [List.forall_mem_singleton]
    exact ⟨_, rfl, rfl⟩
  exact ⟨rfl, ((immediates_always_checked rfl (by simp) (by simp)).2.1 rfl).mpr legal⟩

end Check

end Wasm
