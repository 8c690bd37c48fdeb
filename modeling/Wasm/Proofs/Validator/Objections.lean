import Wasm.Proofs.Binary.Yields
import Wasm.Proofs.Validator.Items

/-! # What the validator objects to

Apart from the order in which it is told of a module, the validator objects to nothing but the module's contents. In an
expression, as many frames are open as blocks are counted, as long as its instructions are accepted.
-/

namespace Wasm

open Binary Outcome Verdict

/-! ## Declarations -/

theorem ValueType.rejects_checkAll (tags : List UInt8) : Rejects Violation.Simple (checkAll tags) := by
  induction tags with
  | nil => exact .ok _
  | cons tag tags ih => exact (rejects_check tag).bind fun _ => ih.bind fun _ => .ok _

theorem FuncDecl.rejects_check (d : FuncDecl) : Rejects Violation.Simple d.check :=
  (ValueType.rejects_checkAll _).bind fun _ => (ValueType.rejects_checkAll _).bind fun _ => .ok _

theorem Limits.rejects_check (sized : Sized) (l : Limits) : Rejects Violation.Simple (l.check sized) := by
  unfold check
  split
  · exact .error ⟨by cases sized <;> rfl, trivial⟩
  · split
    · exact .ok _
    · split
      · exact .error ⟨by cases sized <;> rfl, trivial⟩
      · split
        · exact .error ⟨rfl, trivial⟩
        · exact .ok _

theorem TableDecl.rejects_check (d : TableDecl) : Rejects Violation.Simple d.check :=
  (d.limits.rejects_check .table).bind fun _ => (RefType.rejects_check d.tag).bind fun _ => .ok _

theorem GlobalDecl.rejects_check (d : GlobalDecl) : Rejects Violation.Simple d.check := by
  refine (ValueType.rejects_check d.tag).bind fun _ => ?_
  split
  · exact .ok _
  · exact .ok _
  · exact .error ⟨rfl, trivial⟩

theorem Locals.rejects_declare (l : Locals) (decls : List LocalDecl) : Rejects Violation.Simple (l.declare decls) := by
  induction decls generalizing l with
  | nil => exact .ok _
  | cons d rest ih =>
    unfold declare
    cases checked : ValueType.check d.tag with
    | error v => exact .error (ValueType.rejects_check d.tag v checked)
    | ok type =>
      dsimp only
      unfold push
      split
      · rename_i failed
        split at failed
        · cases failed
          exact .error ⟨rfl, trivial⟩
        · split at failed <;> cases failed
      · exact ih _

/-! ## Open blocks -/

theorem Leaf.nesting (l : Leaf) (depth : Nat) : l.instruction.nesting depth = some depth := by
  cases l <;> rfl

theorem Instruction.nesting_of_opens {i : Instruction} {kind : FrameKind} {type : BlockType}
    (opens : i.opens = some (kind, type)) (depth : Nat) : i.nesting depth = some (depth + 1) := by
  cases i with
  | block | loop | if_ => rfl
  | _ => cases opens

namespace Check

/-- The number of frames where so many blocks are open; the expression itself has one as long as it is not closed. -/
def framesAt : Option Nat → Nat
  | some depth => depth + 1
  | none => 0

/-- An instruction that is accepted makes as many frames as blocks are counted. -/
theorem Move.length {i : Instruction} {c c' : Checker} {depth : Nat} (move : Move i true c c')
    (before : c.frames.length = framesAt (some depth)) : c'.frames.length = framesAt (i.nesting depth) := by
  cases move with
  | inside leaf evolves =>
    obtain ⟨l, rfl⟩ := leaf rfl
    rw [l.nesting]
    exact before
  | opened opens type evolves =>
    rw [Instruction.nesting_of_opens opens]
    exact congrArg Nat.succ before
  | divided isIf => exact before
  | @closed f outer given c' gave =>
    have around : outer.length = depth := Nat.succ.inj before
    subst around
    cases outer with
    | nil => cases gave; rfl
    | cons g rest => cases gave; rfl

/-- In an open block, an instruction of the shape that its opcode asks for is rejected for its contents only. -/
theorem ordinary_of_step {Γ : Scope} {i : Instruction} {c c' : Checker} {v : Violation} (open_ : c.frames ≠ [])
    (shaped : i.Shaped) (returns : i = .return_ → Γ.returns ≠ none) (rejected : step Γ i c = .error v c') :
    v.Ordinary := by
  obtain ⟨_ | ⟨f, outer⟩, given⟩ := c
  · exact absurd rfl open_
  · rcases ((step_moves Γ i f outer given).reason v c' rejected).ordinary_or_misfit with ordinary | misfit
    · exact ordinary
    · cases misfit with
      | return_ outside => exact absurd outside (returns rfl)
      | vector unshaped sub => exact absurd shaped unshaped

theorem length_of_step {Γ : Scope} {i : Instruction} {c c' : Checker} {u : Unit} {depth : Nat}
    (before : c.frames.length = framesAt (some depth)) (accepted : step Γ i c = .ok u c') :
    c'.frames.length = framesAt (i.nesting depth) := by
  obtain ⟨_ | ⟨f, outer⟩, given⟩ := c
  · cases before
  · have move := (step_moves Γ i f outer given).move
    rw [accepted] at move
    exact move.length before

end Check

theorem Scope.rejects_permit (Γ : Scope) (i : Instruction) (refs : FuncRefs) :
    Rejects Violation.Simple (Γ.permit i refs) := by
  unfold permit
  split
  · exact .error ⟨rfl, trivial⟩
  · split
    · exact (Γ.space.rejects_function _).bind fun _ => .ok _
    · exact (Γ.rejects_global _).bind fun _ => .guard ⟨rfl, trivial⟩ (.ok _)
    · exact .ok _

/-- So many blocks of an expression are open, or it is closed. In a body there is something to return from. -/
structure OpenExpr.Ready (e : OpenExpr) (depth : Option Nat) : Prop where
  frames : e.checker.frames.length = Check.framesAt depth
  returns : e.isConstant = false → e.scope.returns ≠ none

namespace Validator

variable {α β : Type} {v v' : Validator} {m : Step Validator α} {u : Unit}

/-! ## Objections to contents -/

theorem simple_lookup {f : IndexSpace → Verdict α} (rejects : ∀ C, Rejects Violation.Simple (f C)) :
    Raises Violation.Simple (lookup f) := by
  intro v w v' failed
  unfold lookup at failed
  split at failed
  · cases failed
  · rename_i rejected
    cases failed
    exact rejects _ w rejected

/-- An index that is looked up before the state changes. -/
theorem simple_found {f : IndexSpace → Verdict α} {g : α → Step Validator β}
    (rejects : ∀ C, Rejects Violation.Simple (f C)) (rest : ∀ a v, isOk (g a v) = true) :
    Raises Violation.Simple (lookup f >>= g) :=
  (simple_lookup rejects).bind fun a => .of_ok (rest a)

/-- A check, and a change of the state by what it finds. -/
theorem simple_checked {x : Verdict α} {g : α → Step Validator β} (rejects : Rejects Violation.Simple x)
    (rest : ∀ a v, isOk (g a v) = true) : Raises Violation.Simple (liftM x >>= g) :=
  (Raises.lift rejects).bind fun a => .of_ok (rest a)

theorem simple_declare (func : UInt32) : Raises Violation.Simple (declare func) :=
  simple_found (fun C => C.rejects_function func) fun _ _ => rfl

theorem simple_declareAll (funcs : List UInt32) : Raises Violation.Simple (declareAll funcs) := by
  induction funcs with
  | nil => exact .of_ok fun _ => rfl
  | cons func funcs ih =>
    intro v w v' failed
    rw [declareAll_cons] at failed
    exact (simple_declare func).bind (fun _ => ih) v w v' failed

theorem simple_memory (l : Limits) : Raises Violation.Simple (memory l) :=
  (Raises.lift (l.rejects_check .memory)).bind fun _ => .get fun _ => .guard ⟨rfl, trivial⟩ (.of_ok fun _ => rfl)

theorem simple_imported (desc : ImportDesc) : Raises Violation.Simple (imported desc) := by
  cases desc with
  | function type => exact simple_found (fun _ => IndexSpace.rejects_find _ _ _) fun _ _ => rfl
  | table d => exact simple_checked d.rejects_check fun _ _ => rfl
  | memory l => exact simple_memory l
  | global d => exact simple_checked d.rejects_check fun _ _ => rfl

theorem simple_exportName (name : String) : Raises Violation.Simple (exportName name) :=
  .ite (.fail fun _ => ⟨rfl, trivial⟩) (.of_ok fun _ => rfl)

theorem simple_exportTarget (e : Export) : Raises Violation.Simple (exportTarget e) := by
  unfold exportTarget
  split
  · exact simple_declare e.index
  · exact simple_found (fun _ => IndexSpace.rejects_find _ _ _) fun _ _ => rfl
  · exact simple_found (fun _ => IndexSpace.rejects_find _ _ _) fun _ _ => rfl
  · exact simple_found (fun _ => IndexSpace.rejects_find _ _ _) fun _ _ => rfl
  · exact .throw ⟨rfl, trivial⟩

theorem simple_elementMode (type : RefType) (mode : ElementMode) : Raises Violation.Simple (elementMode type mode) := by
  cases mode with
  | passive | declarative => exact .pure _
  | active table =>
    exact (simple_lookup fun _ => IndexSpace.rejects_find _ _ _).bind fun _ => .last_guard ⟨rfl, trivial⟩

theorem simple_elementInit (type : RefType) (init : ElementInit) : Raises Violation.Simple (elementInit type init) := by
  cases init with
  | functions funcs => exact .guard ⟨rfl, trivial⟩ (simple_declareAll funcs)
  | expressions => exact .pure _

theorem simple_takeBody : Raises Violation.Simple takeBody :=
  .ite (.fail fun _ => ⟨rfl, trivial⟩) (.of_ok fun _ => rfl)

theorem simple_beginBody (decls : List LocalDecl) : Raises Violation.Simple (beginBody decls) :=
  simple_takeBody.bind fun _ => (simple_lookup fun C => C.rejects_function _).bind fun _ =>
    simple_checked (Locals.rejects_declare _ decls) fun _ _ => rfl

/-! ## Moving on -/

/-- Moves on to a section, and from then on objects to contents only. -/
def Sectioned (next : Section) (m : Step Validator α) : Prop :=
  ∃ rest : Unit → Step Validator α, m = (advance next >>= rest) ∧ Raises Violation.Simple (rest ())

/-- Every entry that belongs to a section moves on to it; that of the start function and that of the number of data
segments come once, which is asked before. -/
theorem sectioned_entry {e : Entry} {next : Section} (here : (Item.entry e).section? = some next)
    (unasked : next ∉ [.header, .start, .dataCount]) : Sectioned next (entry e) := by
  cases e with
  | header | start | dataCount =>
    cases here
    exact absurd (by decide) unasked
  | custom => cases here
  | type d => cases here; exact ⟨_, rfl, simple_checked d.rejects_check fun _ _ => rfl⟩
  | imported i => cases here; exact ⟨_, rfl, simple_imported i.desc⟩
  | function type => cases here; exact ⟨_, rfl, simple_found (fun _ => IndexSpace.rejects_find _ _ _) fun _ _ => rfl⟩
  | table d => cases here; exact ⟨_, rfl, simple_checked d.rejects_check fun _ _ => rfl⟩
  | memory l => cases here; exact ⟨_, rfl, simple_memory l⟩
  | exported e =>
    cases here
    exact ⟨_, rfl, (simple_exportName e.name).bind fun _ => simple_exportTarget e⟩
  | element s =>
    cases here
    exact ⟨_, rfl, (Raises.lift (RefType.rejects_check s.tag)).bind fun type =>
      (simple_elementMode type s.mode).bind fun _ => (simple_elementInit type s.init).bind fun _ => .of_ok fun _ => rfl⟩
  | data s =>
    cases here
    obtain ⟨mode, init⟩ := s
    refine ⟨_, rfl, ?_⟩
    cases mode with
    | active memory => exact simple_found (fun _ => IndexSpace.rejects_find _ _ _) fun _ _ => rfl
    | passive => exact .of_ok fun _ => rfl
  | finish =>
    cases here
    refine ⟨_, rfl, .get fun v => .guard ⟨rfl, trivial⟩ ?_⟩
    split
    · exact .last_guard ⟨rfl, trivial⟩
    · exact .pure _

/-- The start function, once it is known to be the first one. -/
theorem sectioned_start (func : UInt32) : Sectioned .start (do
    advance .start
    modify fun v => { v with startSeen := true }
    let type ← lookup (·.function func)
    if type.isEmpty = false then throw (.startSignature func type)) :=
  ⟨_, rfl, (Raises.of_ok fun _ => rfl).bind fun _ =>
    (simple_lookup fun C => C.rejects_function func).bind fun _ => .last_guard ⟨rfl, trivial⟩⟩

theorem sectioned_global (d : GlobalDecl) : Sectioned .global (site (.global d)) :=
  ⟨_, rfl, simple_checked d.rejects_check fun _ _ => rfl⟩

theorem sectioned_code (decls : List LocalDecl) : Sectioned .code (site (.code decls)) :=
  ⟨_, rfl, simple_beginBody decls⟩

/-! ## Ordinary objections -/

/-- What a step objects to in a state is something in the contents of the module. -/
def Fair (m : Step Validator α) (v : Validator) : Prop := ∀ w v', m v = .error w v' → w.Ordinary

namespace Fair

theorem of_ok {a : α} (done : m v = .ok a v') : Fair m v := by
  intro w t failed
  rw [done] at failed
  cases failed

theorem of_raises (raises : Raises Violation.Simple m) : Fair m v :=
  fun w v' failed => (raises v w v' failed).ordinary

theorem bind {f : α → Step Validator β} (first : Fair m v) (second : ∀ a v', m v = .ok a v' → Fair (f a) v') :
    Fair (m >>= f) v := by
  intro w t failed
  cases one : m v with
  | ok a v' =>
    rw [bind_of_ok one] at failed
    exact second a v' one w t failed
  | error w' v' =>
    rw [bind_of_error one] at failed
    cases failed
    exact first w t one

theorem get {f : Validator → Step Validator α} (rest : Fair (f v) v) : Fair (MonadState.get >>= f) v := rest

/-- A condition that is known to hold. -/
theorem passed {p : Prop} [Decidable p] {w : Violation} {f : PUnit → Step Validator α} (known : ¬p) (rest : Fair m v) :
    Fair (if p then MonadExcept.throw w >>= f else m) v := by
  rwa [if_neg known]

/-- A section that may come next is moved on to. -/
theorem advance {next : Section} {f : Unit → Step Validator α} (follows : v.Follows (some next))
    (rest : Fair (f ()) { v with position := next }) : Fair (Validator.advance next >>= f) v := by
  have moved : Validator.advance next v = .ok () { v with position := next } := advance_ok_iff.mpr ⟨follows, rfl⟩
  intro w t failed
  rw [bind_of_ok moved] at failed
  exact rest w t failed

end Fair

theorem Sectioned.fair {next : Section} (sectioned : Sectioned next m) (follows : v.Follows (some next)) : Fair m v := by
  obtain ⟨rest, rfl, raises⟩ := sectioned
  exact .advance follows (.of_raises raises)

/-! ## Expressions -/

theorem ready_constant (C : IndexSpace) (t : ValueType) : OpenExpr.Ready ⟨.constant C, true, .start [t]⟩ (some 0) :=
  ⟨rfl, fun body => Bool.noConfusion body⟩

/-- What is asked of a site, whatever expression stands there, and the expression that is open from then on. -/
def Opens (v : Validator) : Site → OpenExpr → Prop
  | .global d, e => ∃ t, d.type? = some t ∧ e = ⟨.constant (v.space.addGlobal t), true, .start [t.value]⟩
  | .elementOffset, e =>
    (∃ last ∈ v.lastElement, last.offsetPending = true) ∧ e = ⟨.constant v.space, true, .start [.i32]⟩
  | .elementItem, e =>
    ∃ last ∈ v.lastElement, last.expressions = true ∧ e = ⟨.constant v.space, true, .start [.ref last.type]⟩
  | .code decls, e =>
    v.bodiesSeen < v.space.definedFunctions ∧ ∃ type locals, v.space.HasFunction v.nextBody.toUInt32 type ∧
      (Locals.ofTypes type.params).declare decls = .ok locals ∧
      e = ⟨.function v.space type.results locals v.refs, false, .start type.results⟩
  | .dataOffset, e => v.dataOffsetPending = true ∧ e = ⟨.constant v.space, true, .start [.i32]⟩

/-- A site that is accepted leaves the state that an expression there without any instruction would leave, but that the
expression is open. -/
theorem site_ok_iff {x : Site} :
    site x v = .ok u v' ↔
      v.Follows (Item.expr x []).section? ∧ ∃ e, v.Opens x e ∧ v' = { v.after (.expr x []) with expr := some e } := by
  cases x with
  | global d =>
    rw [site, advance_bind_ok_iff]
    simp only [Outcome.bind_ok_iff, Outcome.lift_ok_iff, GlobalDecl.check_ok_iff, extend_ok_iff]
    constructor
    · rintro ⟨follows, t, _, ⟨found, rfl⟩, _, _, rfl, begun⟩
      cases begun
      refine ⟨follows, _, ⟨t, found, rfl⟩, ?_⟩
      simp only [after, receive, IndexSpace.add, found]
      rfl
    · rintro ⟨follows, _, ⟨t, found, rfl⟩, rfl⟩
      refine ⟨follows, t, _, ⟨found, rfl⟩, (), _, rfl, ?_⟩
      simp only [after, receive, IndexSpace.add, found]
      rfl
  | elementOffset =>
    rw [site, advance_bind_ok_iff]
    simp only [Outcome.bind_ok_iff, takeElementOffset_ok_iff]
    constructor
    · rintro ⟨follows, _, _, ⟨pending, rfl⟩, begun⟩
      cases begun
      exact ⟨follows, _, ⟨pending, rfl⟩, rfl⟩
    · rintro ⟨follows, _, ⟨pending, rfl⟩, rfl⟩
      exact ⟨follows, (), _, ⟨pending, rfl⟩, rfl⟩
  | elementItem =>
    rw [site, advance_bind_ok_iff]
    simp only [Outcome.bind_ok_iff, itemType_ok_iff]
    constructor
    · rintro ⟨follows, _, _, ⟨⟨last, member, listed, rfl⟩, rfl⟩, begun⟩
      cases begun
      exact ⟨follows, _, ⟨last, member, listed, rfl⟩, rfl⟩
    · rintro ⟨follows, _, ⟨last, member, listed, rfl⟩, rfl⟩
      exact ⟨follows, last.type, _, ⟨⟨last, member, listed, rfl⟩, rfl⟩, rfl⟩
  | code decls =>
    rw [site, advance_bind_ok_iff]
    simp only [beginBody, Outcome.bind_ok_iff, takeBody_ok_iff, lookup_ok_iff, Outcome.lift_ok_iff,
      Outcome.modify_ok_iff, IndexSpace.function_ok_iff]
    constructor
    · rintro ⟨follows, _, _, ⟨next, rfl, rfl⟩, type, _, ⟨known, rfl⟩, locals, _, ⟨declared, rfl⟩, rfl⟩
      exact ⟨follows, _, ⟨next, type, locals, known, declared, rfl⟩, rfl⟩
    · rintro ⟨follows, _, ⟨next, type, locals, known, declared, rfl⟩, rfl⟩
      exact ⟨follows, _, _, ⟨next, rfl, rfl⟩, type, _, ⟨known, rfl⟩, locals, _, ⟨declared, rfl⟩, rfl⟩
  | dataOffset =>
    rw [site, advance_bind_ok_iff]
    simp only [Outcome.bind_ok_iff, takeDataOffset_ok_iff]
    constructor
    · rintro ⟨follows, _, _, ⟨pending, rfl⟩, begun⟩
      cases begun
      exact ⟨follows, _, ⟨pending, rfl⟩, rfl⟩
    · rintro ⟨follows, _, ⟨pending, rfl⟩, rfl⟩
      exact ⟨follows, (), _, ⟨pending, rfl⟩, rfl⟩

theorem ready_of_opens {x : Site} {e : OpenExpr} (opens : v.Opens x e) : e.Ready (some 0) := by
  cases x with
  | global d =>
    obtain ⟨t, -, rfl⟩ := opens
    exact ready_constant _ _
  | elementOffset =>
    obtain ⟨-, rfl⟩ := opens
    exact ready_constant _ _
  | elementItem =>
    obtain ⟨last, -, -, rfl⟩ := opens
    exact ready_constant _ _
  | code decls =>
    obtain ⟨-, type, locals, -, -, rfl⟩ := opens
    exact ⟨rfl, fun _ => Option.some_ne_none type.results⟩
  | dataOffset =>
    obtain ⟨-, rfl⟩ := opens
    exact ready_constant _ _

/-- A site that is accepted leaves the state that a whole expression there would leave, but that the expression is open
and the functions it will mention are not yet known. -/
theorem begun_of_site {x : Site} (begun : site x v = .ok u v') (body : List Instruction) :
    ∃ e, v' = { v.after (.expr x body) with refs := v.refs, expr := some e } ∧ e.Ready (some 0) := by
  obtain ⟨-, e, opens, rfl⟩ := site_ok_iff.mp begun
  refine ⟨e, ?_, ready_of_opens opens⟩
  cases x <;> rfl

theorem fair_instruction {e : OpenExpr} {i : Instruction} {depth : Nat} (opened : v.expr = some e)
    (ready : e.Ready (some depth)) (shaped : i.Shaped) : Fair (consumer.instruction i) v := by
  obtain ⟨Γ, constant, c⟩ := e
  have open_ : c.frames ≠ [] := List.ne_nil_of_length_eq_add_one ready.frames
  intro w t failed
  have failed : instruction i v = .error w t := failed
  simp only [instruction, opened] at failed
  cases constant with
  | true =>
    simp only [if_true, constantInstruction, ConstantExpr.step] at failed
    cases permitted : Γ.permit i v.refs with
    | error w' =>
      rw [permitted] at failed
      cases failed
      exact (Γ.rejects_permit i v.refs w permitted).ordinary
    | ok refs =>
      -- a constant expression admits no `return`
      have returns : i = .return_ → Γ.returns ≠ none := by
        rintro rfl
        cases ConstantExpr.isConstant_of_permit permitted
      rw [permitted] at failed
      cases stepped : Check.step Γ i c with
      | ok u c' => simp [stepped] at failed
      | error w' c' =>
        simp only [stepped] at failed
        cases failed
        exact Check.ordinary_of_step open_ shaped returns stepped
  | false =>
    simp only [Bool.false_eq_true, if_false, bodyInstruction] at failed
    cases stepped : Check.step Γ i c with
    | ok u c' => rw [stepped] at failed; cases failed
    | error w' c' =>
      rw [stepped] at failed
      cases failed
      exact Check.ordinary_of_step open_ shaped (fun _ => ready.returns rfl) stepped

theorem ready_of_instruction {e : OpenExpr} {i : Instruction} {depth : Nat} (opened : v.expr = some e)
    (ready : e.Ready (some depth)) (accepted : consumer.instruction i v = .ok u v') :
    ∃ refs e', v' = { v with refs := refs, expr := some e' } ∧ e'.Ready (i.nesting depth) := by
  obtain ⟨Γ, constant, c⟩ := e
  have same : v = { v with expr := some ⟨Γ, constant, c⟩ } := by rw [← opened]
  rw [same] at accepted
  cases constant with
  | true =>
    obtain ⟨e, stepped, rfl⟩ := constantInstruction_ok_iff.mp accepted
    obtain ⟨-, stepped⟩ := ConstantExpr.step_ok_iff.mp stepped
    exact ⟨_, _, rfl, Check.length_of_step ready.frames stepped, ready.returns⟩
  | false =>
    obtain ⟨c', stepped, rfl⟩ := bodyInstruction_ok_iff.mp accepted
    exact ⟨_, _, rfl, Check.length_of_step ready.frames stepped, ready.returns⟩

/-- Instructions that were decoded one after the other are rejected for their contents only, and those that are accepted
leave the blocks open that were counted. -/
theorem feedOpen_decoded {e : OpenExpr} {body : List Instruction} {depth : Nat} {whole : Bool}
    (decoded : Decoded depth body whole) (opened : v.expr = some e) (ready : e.Ready (some depth)) :
    Fair (consumer.feedOpen body) v ∧ ∀ v', consumer.feedOpen body v = .ok () v' →
      ∃ refs e', v' = { v with refs := refs, expr := some e' } ∧ (whole = true → e'.Ready none) := by
  induction decoded generalizing v e with
  | @closed i c d depth decoded closes =>
    have shaped := Yields.instruction.result c i d decoded
    refine ⟨(fair_instruction opened ready shaped).bind fun _ _ _ => .of_ok rfl, fun v' done => ?_⟩
    obtain ⟨_, _, accepted, ⟨⟩⟩ := bind_ok_iff.mp done
    obtain ⟨refs, e', rfl, ready⟩ := ready_of_instruction opened ready accepted
    exact ⟨refs, e', rfl, fun _ => closes ▸ ready⟩
  | broken depth =>
    refine ⟨.of_ok rfl, fun v' done => ?_⟩
    cases done
    exact ⟨v.refs, e, by rw [← opened], fun whole => Bool.noConfusion whole⟩
  | @more i c d depth inner is whole decoded goes rest ih =>
    have shaped := Yields.instruction.result c i d decoded
    refine ⟨(fair_instruction opened ready shaped).bind fun _ v' accepted => ?_, fun v' done => ?_⟩
    · obtain ⟨refs, e', rfl, ready⟩ := ready_of_instruction opened ready accepted
      exact (ih rfl (goes ▸ ready)).1
    · obtain ⟨_, t, accepted, done⟩ := bind_ok_iff.mp done
      obtain ⟨refs, e', rfl, ready⟩ := ready_of_instruction opened ready accepted
      obtain ⟨refs, e', rfl, closed⟩ := (ih rfl (goes ▸ ready)).2 v' done
      exact ⟨refs, e', rfl, closed⟩

theorem exprEnd_ready {e : OpenExpr} (opened : v.expr = some e) (ready : e.Ready none) :
    consumer.exprEnd v = .ok () { v with expr := none } := by
  have closed : Check.finish e.checker = .ok () e.checker := by
    unfold Check.finish Checker.isEnded
    rw [List.length_eq_zero_iff.mp ready.frames]
    rfl
  show exprEnd v = _
  simp only [exprEnd, opened, closed]

end Validator

end Wasm
