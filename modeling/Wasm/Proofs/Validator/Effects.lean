import Wasm.Proofs.Binary.Independence
import Wasm.Proofs.Event.Attempts
import Wasm.Proofs.Typing.References
import Wasm.Proofs.Validator.Objections

/-! # What an event leaves behind

An entry or a site that the validator accepts leads to a state that is a function of it. One that is rejected may have
moved the position on, used up a name, the start or a body, and declared functions that exist, but has not changed the
index spaces or what is known of the last segments. What is inside an expression changes nothing but the expression and
the declared functions.
-/

namespace Wasm

open Outcome

namespace Validator

/-- What a rejected entry or site may have done to the state. -/
structure Spares (v v' : Validator) : Prop where
  space : v'.space = v.space
  lastElement : v'.lastElement = v.lastElement
  dataOffset : v'.dataOffsetPending = v.dataOffsetPending
  dataSeen : v'.dataSeen = v.dataSeen
  expr : v'.expr = v.expr
  position : v.position.rank ≤ v'.position.rank
  start : v.startSeen = true → v'.startSeen = true
  bodies : v'.bodiesSeen ≤ max v.bodiesSeen v.space.definedFunctions
  refs : ∀ func ∈ v'.refs, func ∈ v.refs ∨ ∃ type, v.space.HasFunction func type

namespace Spares

theorem refl (v : Validator) : Spares v v where
  space := rfl
  lastElement := rfl
  dataOffset := rfl
  dataSeen := rfl
  expr := rfl
  position := Nat.le_refl _
  start := id
  bodies := Nat.le_max_left ..
  refs _ := .inl

theorem trans {u v w : Validator} (first : Spares u v) (second : Spares v w) : Spares u w where
  space := second.space.trans first.space
  lastElement := second.lastElement.trans first.lastElement
  dataOffset := second.dataOffset.trans first.dataOffset
  dataSeen := second.dataSeen.trans first.dataSeen
  expr := second.expr.trans first.expr
  position := first.position.trans second.position
  start := second.start ∘ first.start
  bodies := by
    have := first.bodies
    have := first.space ▸ second.bodies
    omega
  refs func member := by
    rcases second.refs func member with member | known
    · exact first.refs func member
    · exact .inr (first.space ▸ known)

end Spares

variable {α β : Type} {v v' : Validator}

/-! ## Steps that spare the state -/

/-- Whatever comes of the step, it spares the state. -/
def Sparing (m : Step Validator α) : Prop := ∀ v, Spares v (left (m v))

/-- If the step is rejected, it has spared the state. -/
def SparingIfRejected (m : Step Validator α) : Prop := ∀ v w v', m v = .error w v' → Spares v v'

namespace Sparing

variable {m : Step Validator α}

theorem of_still (still : ∀ v, left (m v) = v) : Sparing m := by
  intro v
  rw [still]
  exact .refl v

theorem bind {f : α → Step Validator β} (first : Sparing m) (second : ∀ a, Sparing (f a)) : Sparing (m >>= f) := by
  intro v
  have one := first v
  cases done : m v with
  | ok a v' =>
    rw [done] at one
    rw [bind_of_ok done]
    exact one.trans (second a v')
  | error w v' =>
    rw [done] at one
    rw [bind_of_error done]
    exact one

theorem lift (x : Verdict α) : Sparing (liftM x : Step Validator α) :=
  of_still fun v => by cases x <;> rfl

theorem lookup (f : IndexSpace → Verdict α) : Sparing (Validator.lookup f) :=
  of_still fun v => by
    rw [Validator.lookup]
    cases f v.space <;> rfl

end Sparing

namespace SparingIfRejected

variable {m : Step Validator α}

theorem of_sparing (sparing : Sparing m) : SparingIfRejected m := by
  intro v w v' failed
  have one := sparing v
  rw [failed] at one
  exact one

/-- A step that is never rejected has nothing to spare. -/
theorem of_isOk (accepts : ∀ v, isOk (m v) = true) : SparingIfRejected m := by
  intro v w v' failed
  have accepted := accepts v
  rw [failed] at accepted
  cases accepted

theorem bind {f : α → Step Validator β} (first : Sparing m) (second : ∀ a, SparingIfRejected (f a)) :
    SparingIfRejected (m >>= f) := by
  intro v w v' failed
  have one := first v
  cases done : m v with
  | ok a t =>
    rw [done] at one
    rw [bind_of_ok done] at failed
    exact one.trans (second a t w v' failed)
  | error w' t =>
    rw [done] at one
    rw [bind_of_error done] at failed
    cases failed
    exact one

/-- A step after which nothing can be rejected may change anything. -/
theorem last {f : α → Step Validator β} (first : SparingIfRejected m) (second : ∀ a v, isOk (f a v) = true) :
    SparingIfRejected (m >>= f) := by
  intro v w v' failed
  cases done : m v with
  | ok a t =>
    rw [bind_of_ok done] at failed
    have accepted := second a t
    rw [failed] at accepted
    cases accepted
  | error w' t =>
    rw [bind_of_error done] at failed
    cases failed
    exact first v w v' done

theorem guard {p : Prop} [Decidable p] {w : Violation} {f : PUnit → Step Validator α} (rest : SparingIfRejected m) :
    SparingIfRejected (if p then throw w >>= f else m) := by
  split
  · exact of_sparing (.of_still fun _ => rfl)
  · exact rest

end SparingIfRejected

theorem Sparing.last_guard {p : Prop} [Decidable p] {w : Violation} :
    Sparing (if p then throw w else pure PUnit.unit : Step Validator PUnit) := by
  refine .of_still fun v => ?_
  split <;> rfl

/-! ## Entries -/

theorem sparing_advance (next : Section) : Sparing (advance next) := by
  intro v
  unfold advance
  split
  · exact .refl v
  · split
    · exact .refl v
    · rename_i order
      exact { Spares.refl v with position := Nat.le_of_not_lt order }

theorem sparing_declare (func : UInt32) : Sparing (declare func) := by
  intro v
  cases found : v.space.function func with
  | error w =>
    have failed : declare func v = .error w v := by
      rw [declare, bind_of_error (t := v) (e := w)]
      rw [lookup, found]
    rw [failed]
    exact .refl v
  | ok type =>
    have known : ∃ type, v.space.HasFunction func type := ⟨type, IndexSpace.function_ok_iff.mp found⟩
    have done : declare func v = .ok () { v with refs := v.refs.insert func } := declare_ok_iff.mpr ⟨known, rfl⟩
    rw [done]
    refine { Spares.refl v with refs := fun other member => ?_ }
    rcases FuncRefs.mem_insert_iff.mp member with rfl | member
    · exact .inr known
    · exact .inl member

theorem sparing_declareAll (funcs : List UInt32) : Sparing (declareAll funcs) := by
  induction funcs with
  | nil => exact .of_still fun _ => rfl
  | cons func funcs ih =>
    intro v
    rw [declareAll_cons]
    exact (sparing_declare func).bind (fun _ => ih) v

theorem sparing_exportName (name : String) : Sparing (exportName name) := by
  intro v
  unfold exportName
  split
  · exact .refl v
  · exact { Spares.refl v with }

theorem sparing_exportTarget (e : Export) : Sparing (exportTarget e) := by
  have found {γ : Type} (f : IndexSpace → Verdict γ) : Sparing (do let _ ← lookup f) :=
    (Sparing.lookup f).bind fun _ => .of_still fun _ => rfl
  unfold exportTarget
  split
  · exact sparing_declare e.index
  · exact found _
  · exact found _
  · exact found _
  · exact .of_still fun _ => rfl

theorem sparing_elementMode (type : RefType) (mode : ElementMode) : Sparing (elementMode type mode) := by
  cases mode with
  | passive | declarative => exact .of_still fun _ => rfl
  | active table => exact (Sparing.lookup _).bind fun _ => .last_guard

theorem sparing_elementInit (type : RefType) (init : ElementInit) : Sparing (elementInit type init) := by
  cases init with
  | expressions => exact .of_still fun _ => rfl
  | functions funcs =>
    unfold elementInit
    dsimp only
    split
    · exact .of_still fun _ => rfl
    · exact sparing_declareAll funcs

/-- Declarations are checked, and then added to the index spaces. -/
theorem spares_extend (x : Verdict α) (f : α → IndexSpace → IndexSpace) :
    SparingIfRejected (do let a ← x; extend (f a)) :=
  .last (.of_sparing (.lift x)) fun _ _ => rfl

theorem spares_memory (l : Limits) : SparingIfRejected (memory l) :=
  .bind (.lift _) fun _ => .bind (.of_still fun _ => rfl) fun _ => .guard (.of_isOk fun _ => rfl)

theorem spares_imported (desc : ImportDesc) : SparingIfRejected (imported desc) := by
  cases desc with
  | function type => exact .last (.of_sparing (.lookup _)) fun _ _ => rfl
  | table d => exact spares_extend _ _
  | memory l => exact spares_memory l
  | global d => exact spares_extend _ _

/-- Whatever becomes of the end of the module, it moves the position only. -/
theorem left_finish (v : Validator) : left (finish v) = { v with position := .finish } := by
  unfold finish
  by_cases ended : v.position = .finish
  · have failed : advance .finish v = .error (.afterEnd .finish) v := by simp [advance, isEnded, ended]
    rw [bind_of_error failed, ← ended]
    rfl
  · have moved : advance .finish v = .ok () { v with position := .finish } :=
      advance_ok_iff.mpr ⟨⟨ended, fun s same => Option.some.inj same ▸ v.position.rank_le_finish⟩, rfl⟩
    rw [bind_of_ok moved]
    show left ((if _ then _ else _ : Step Validator Unit) _) = _
    repeat' split
    all_goals rfl

/-- A rejected entry has spared the state. -/
theorem spares_entry (e : Entry) : SparingIfRejected (entry e) := by
  have reading : Sparing (get : Step Validator Validator) := .of_still fun _ => rfl
  cases e with
  | header version => exact .of_sparing (sparing_advance _)
  | custom name payload =>
    refine .of_sparing (.of_still fun v => ?_)
    show left (custom v) = v
    unfold custom
    split <;> rfl
  | type d => exact .bind (sparing_advance _) fun _ => spares_extend _ _
  | imported i => exact .bind (sparing_advance _) fun _ => spares_imported i.desc
  | function type => exact .bind (sparing_advance _) fun _ => .last (.of_sparing (.lookup _)) fun _ _ => rfl
  | table d => exact .bind (sparing_advance _) fun _ => spares_extend _ _
  | memory l => exact .bind (sparing_advance _) fun _ => spares_memory l
  | exported e =>
    exact .of_sparing <| (sparing_advance _).bind fun _ => (sparing_exportName e.name).bind fun _ =>
      sparing_exportTarget e
  | start func =>
    have seen : Sparing (modify fun v => { v with startSeen := true }) := fun v =>
      { Spares.refl v with start := fun _ => rfl }
    exact .bind reading fun _ => .guard <| .of_sparing <| (sparing_advance _).bind fun _ => seen.bind fun _ =>
      (Sparing.lookup _).bind fun _ => .last_guard
  | element s =>
    exact .bind (sparing_advance _) fun _ => .bind (.lift _) fun type =>
      .bind (sparing_elementMode type s.mode) fun _ => .bind (sparing_elementInit type s.init) fun _ =>
        .of_isOk fun _ => rfl
  | dataCount count => exact .bind reading fun _ => .guard <| .last (.of_sparing (sparing_advance _)) fun _ _ => rfl
  | data s =>
    obtain ⟨mode, payload⟩ := s
    cases mode with
    | passive => exact .last (.of_sparing (sparing_advance _)) fun _ _ => rfl
    | active memory => exact .bind (sparing_advance _) fun _ => .last (.of_sparing (.lookup _)) fun _ _ => rfl
  | finish =>
    refine .of_sparing fun v => ?_
    show Spares v (left (finish v))
    rw [left_finish]
    exact { Spares.refl v with position := v.position.rank_le_finish }

/-! ## Sites -/

theorem sparing_takeBody : Sparing takeBody := by
  intro v
  unfold takeBody
  split
  · exact .refl v
  · rename_i room
    refine { Spares.refl v with bodies := ?_ }
    show v.bodiesSeen + 1 ≤ _
    omega

theorem spares_takeElementOffset : SparingIfRejected takeElementOffset := by
  intro v w v' failed
  unfold takeElementOffset at failed
  repeat' split at failed
  · cases failed
  · cases failed
    exact .refl v
  · cases failed
    exact .refl v

theorem sparing_itemType : Sparing itemType := by
  refine .of_still fun v => ?_
  unfold itemType
  repeat' split
  all_goals rfl

theorem spares_takeDataOffset : SparingIfRejected takeDataOffset := by
  intro v w v' failed
  unfold takeDataOffset at failed
  split at failed
  · cases failed
  · cases failed
    exact .refl v

/-- A rejected site has spared the state. -/
theorem spares_site (x : Site) : SparingIfRejected (site x) := by
  cases x with
  | global d => exact .bind (sparing_advance _) fun _ => .bind (.lift _) fun _ => .of_isOk fun _ => rfl
  | elementOffset => exact .bind (sparing_advance _) fun _ => .last spares_takeElementOffset fun _ _ => rfl
  | elementItem => exact .bind (sparing_advance _) fun _ => .last (.of_sparing sparing_itemType) fun _ _ => rfl
  | code decls =>
    exact .bind (sparing_advance _) fun _ => .bind sparing_takeBody fun _ => .bind (.lookup _) fun _ =>
      .last (.of_sparing (.lift _)) fun _ _ => rfl
  | dataOffset => exact .bind (sparing_advance _) fun _ => .last spares_takeDataOffset fun _ _ => rfl

/-! ## Inside an expression -/

/-- What a step inside an expression may have done to the state. -/
structure Within (v v' : Validator) : Prop where
  same : v' = { v with refs := v'.refs, expr := v'.expr }
  refs : ∀ func ∈ v'.refs, func ∈ v.refs ∨ ∃ o ∈ v.expr, ∃ type, o.scope.space.HasFunction func type
  expr : ∀ o ∈ v'.expr, ∃ o' ∈ v.expr, o'.scope = o.scope

theorem Within.refl (v : Validator) : Within v v where
  same := rfl
  refs _ := .inl
  expr o member := ⟨o, member, rfl⟩

theorem within_constantInstruction {Γ : Scope} {c : Checker} (i : Instruction) (opened : v.expr = some ⟨Γ, true, c⟩) :
    Within v (left (constantInstruction Γ c i { v with expr := none })) := by
  have scope (c' : Checker) : ∀ o ∈ some (OpenExpr.mk Γ true c'), ∃ o' ∈ v.expr, o'.scope = o.scope := by
    rintro _ ⟨⟩
    exact ⟨_, opened, rfl⟩
  unfold constantInstruction ConstantExpr.step
  dsimp only
  cases permitted : Γ.permit i v.refs with
  | error w => exact ⟨rfl, fun _ => .inl, scope c⟩
  | ok refs =>
    have declared : ∀ func ∈ refs, func ∈ v.refs ∨ ∃ o ∈ v.expr, ∃ type, o.scope.space.HasFunction func type :=
      fun func member => ((Scope.declares_of_permit permitted).known func member).imp_right fun known => ⟨_, opened, known⟩
    dsimp only
    cases Check.step Γ i c with
    | ok u c' => exact ⟨rfl, declared, scope c'⟩
    | error w c' => exact ⟨rfl, declared, scope c'⟩

theorem within_bodyInstruction {Γ : Scope} {c : Checker} (i : Instruction) (opened : v.expr = some ⟨Γ, false, c⟩) :
    Within v (left (bodyInstruction Γ c i { v with expr := none })) := by
  have scope (c' : Checker) : ∀ o ∈ some (OpenExpr.mk Γ false c'), ∃ o' ∈ v.expr, o'.scope = o.scope := by
    rintro _ ⟨⟩
    exact ⟨_, opened, rfl⟩
  unfold bodyInstruction
  cases Check.step Γ i c with
  | ok u c' => exact ⟨rfl, fun _ => .inl, scope c'⟩
  | error w c' => exact ⟨rfl, fun _ => .inl, scope c'⟩

theorem within_instruction (i : Instruction) (v : Validator) : Within v (left (instruction i v)) := by
  unfold instruction
  cases opened : v.expr with
  | none => exact .refl v
  | some o =>
    obtain ⟨Γ, constant, c⟩ := o
    cases constant with
    | true => exact within_constantInstruction i opened
    | false => exact within_bodyInstruction i opened

theorem within_exprEnd (v : Validator) : Within v (left (exprEnd v)) := by
  unfold exprEnd
  cases opened : v.expr with
  | none => exact .refl v
  | some o =>
    dsimp only
    cases Check.finish o.checker with
    | ok u c =>
      refine ⟨rfl, fun _ => .inl, ?_⟩
      rintro _ ⟨⟩
    | error w c => exact .refl v

/-! ## Events -/

/-- What an event does that is accepted or rejected. -/
inductive Effect (v : Validator) : Event → Bool → Validator → Prop where
  | entry {e : Entry} (follows : v.Follows (Item.entry e).section?) (judges : v.Judges (.entry e)) :
      Effect v (.entry e) true (v.after (.entry e))
  | site {x : Site} {o : OpenExpr} (follows : v.Follows (Item.expr x []).section?) (opens : v.Opens x o) :
      Effect v (.site x) true { v.after (.expr x []) with expr := some o }
  | rejected {e : Event} {v' : Validator} (outside : ¬e.IsInside) (spares : Spares v v') : Effect v e false v'
  | inside {e : Event} {accepted : Bool} {v' : Validator} (inside : e.IsInside) (within : Within v v') :
      Effect v e accepted v'

theorem effect_entry (e : Entry) (v : Validator) :
    Effect v (.entry e) (isOk (consumer.event (.entry e) v)) (left (consumer.event (.entry e) v)) := by
  show Effect v _ (isOk ((entry e >>= fun _ => pure false) v)) (left ((entry e >>= fun _ => pure false) v))
  cases done : entry e v with
  | ok u v' =>
    obtain ⟨follows, judges, rfl⟩ := entry_ok_iff.mp done
    rw [bind_of_ok done]
    exact .entry follows judges
  | error w v' =>
    rw [bind_of_error done]
    exact .rejected id (spares_entry e v w v' done)

theorem effect_site (x : Site) (v : Validator) :
    Effect v (.site x) (isOk (consumer.event (.site x) v)) (left (consumer.event (.site x) v)) := by
  show Effect v _ (isOk ((site x >>= fun _ => pure true) v)) (left ((site x >>= fun _ => pure true) v))
  cases done : site x v with
  | ok u v' =>
    obtain ⟨follows, o, opens, rfl⟩ := site_ok_iff.mp done
    rw [bind_of_ok done]
    exact .site follows opens
  | error w v' =>
    rw [bind_of_error done]
    exact .rejected id (spares_site x v w v' done)

/-- Whatever becomes of an event, its effect is one of these. -/
theorem effect_event (e : Event) (v : Validator) :
    Effect v e (isOk (consumer.event e v)) (left (consumer.event e v)) := by
  cases e with
  | entry e => exact effect_entry e v
  | site x => exact effect_site x v
  | instruction i => exact .inside trivial (left_bind_pure (instruction i) false v ▸ within_instruction i v)
  | exprEnd => exact .inside trivial (left_bind_pure exprEnd false v ▸ within_exprEnd v)

/-- What every effect of an event keeps holds after any events, whatever became of each. -/
theorem holds_along {P : Validator → List Event → Prop} (start : P {} [])
    (accepts : ∀ v told e v', P v told → Effect v e true v' → P v' (told ++ [e]))
    (rejects : ∀ v told e v', P v told → Effect v e false v' → P v' told) (es : List Event) :
    P (consumer.after es {}) (consumer.accepted es {}) := by
  apply Consumer.holds_after start
  · intro v told e takes v' holds done
    have effect := effect_event e v
    rw [done] at effect
    exact accepts v told e v' holds effect
  · intro v told e w v' holds failed
    have effect := effect_event e v
    rw [failed] at effect
    exact rejects v told e v' holds effect

end Validator

end Wasm
