import Wasm.Validator.Site
import Wasm.Proofs.Delivery
import Wasm.Proofs.Typing.Bodies
import Wasm.Proofs.Typing.Constants
import Wasm.Proofs.Validator.Validity

/-! # What the validator asks of an item and makes of it

The validator accepts an item when its section may come next, when it breaks no rule in the state reached so far,
and then moves on to a state that is a plain function of the item and the state. The section order is kept apart from
the rest: no rule but the order reads the position.
-/

namespace Wasm

/-- What an export of a known kind names exists. -/
def IndexSpace.HasTarget (C : IndexSpace) (e : Export) : Prop :=
  (e.kind = 0x00 ∧ ∃ type, C.HasFunction e.index type) ∨
  (e.kind = 0x01 ∧ e.index.toNat < C.tables.size) ∨
  (e.kind = 0x02 ∧ e.index.toNat < C.memories.size) ∨
  (e.kind = 0x03 ∧ e.index.toNat < C.globals.size)

/-- An active segment goes to a table of its own type. -/
def IndexSpace.TakesElements (C : IndexSpace) (type : RefType) : ElementMode → Prop
  | .active table => ∃ limits, C.tables[table.toNat]? = some ⟨type, limits⟩
  | .passive | .declarative => True

/-- Functions that make up a segment exist, and the segment is of functions. -/
def IndexSpace.HasElements (C : IndexSpace) (type : RefType) : ElementInit → Prop
  | .functions funcs => type = .func ∧ ∀ func ∈ funcs, ∃ t, C.HasFunction func t
  | .expressions => True

/-- An active segment goes to a memory. -/
def IndexSpace.TakesData (C : IndexSpace) : DataMode → Prop
  | .active memory => memory.toNat < C.memories.size
  | .passive => True

/-- The functions that an item mentions; those that only bodies mention do not count. -/
def Item.mentions : Item → List UInt32
  | .entry (.exported e) => e.mentions
  | .entry (.element s) => s.init.mentions
  | .entry _ | .expr (.code _) _ => []
  | .expr _ body => body.flatMap Instruction.mentions

/-- The index spaces with what an import adds. -/
def IndexSpace.addImport (C : IndexSpace) : ImportDesc → IndexSpace
  | .function type => C.importFunction type
  | .table d => d.type?.elim C C.addTable
  | .memory l => C.addMemory l
  | .global d => d.type?.elim C C.importGlobal

/-- The index spaces with what an item adds. A declaration that is not legal adds nothing. -/
def IndexSpace.add (C : IndexSpace) : Item → IndexSpace
  | .entry (.type d) => d.type?.elim C C.addType
  | .entry (.imported i) => C.addImport i.desc
  | .entry (.function type) => C.addFunction type
  | .entry (.table d) => d.type?.elim C C.addTable
  | .entry (.memory l) => C.addMemory l
  | .entry (.element s) => (RefType.ofTag? s.tag).elim C C.addElement
  | .entry (.dataCount count) => C.setDataCount count
  | .expr (.global d) _ => d.type?.elim C C.addGlobal
  | _ => C

/-- What holds of the index spaces with whatever a declaration adds and without it. -/
theorem IndexSpace.of_elim {α : Type} {P : IndexSpace → Prop} {C : IndexSpace} (type : Option α) {f : α → IndexSpace}
    (without : P C) (added : ∀ a, P (f a)) : P (type.elim C f) := by
  cases type with
  | none => exact without
  | some a => exact added a

/-- Only one section announces a number of data segments. -/
theorem IndexSpace.add_dataCount (C : IndexSpace) {x : Item} (other : x.section? ≠ some .dataCount) :
    (C.add x).dataCount = C.dataCount := by
  rcases x with (_ | _ | _ | ⟨_, _, _ | _ | _ | _⟩ | _ | _ | _ | _ | _ | _ | _ | _ | _) | ⟨_ | _ | _ | _ | _, _⟩
  case entry.dataCount => exact absurd rfl other
  case entry.type | entry.imported.table | entry.imported.global | entry.table | entry.element | expr.global =>
    exact of_elim (P := fun D => D.dataCount = C.dataCount) _ rfl fun _ => rfl
  all_goals rfl

theorem Section.rank_le_finish (s : Section) : s.rank ≤ finish.rank := by
  cases s <;> decide

theorem FuncType.isEmpty_iff {t : FuncType} : t.isEmpty = true ↔ t = ⟨[], []⟩ := by
  obtain ⟨params, results⟩ := t
  simp [FuncType.isEmpty]

namespace Validator

/-- What is asked of an import. -/
def JudgesImport (v : Validator) : ImportDesc → Prop
  | .function type => type.toNat < v.space.types.size
  | .table d => d.Legal
  | .memory l => l.LegalMemory ∧ v.space.memories.size = 0
  | .global d => d.Legal

/-- What is asked of a body of the next function. -/
def JudgesBody (v : Validator) (decls : List LocalDecl) (body : List Instruction) : Prop :=
  v.bodiesSeen < v.space.definedFunctions ∧
    ∃ type locals, v.space.HasFunction v.nextBody.toUInt32 type ∧
      (Locals.ofTypes type.params).declare decls = .ok locals ∧
      Check.Accepts (.function v.space type.results locals v.refs) type.results body

/-- What is asked of an item, but for its place in the section order. -/
def Judges (v : Validator) : Item → Prop
  | .entry (.header _) | .entry (.custom ..) => True
  | .entry (.type d) => d.Legal
  | .entry (.imported i) => v.JudgesImport i.desc
  | .entry (.function type) => type.toNat < v.space.types.size
  | .entry (.table d) => d.Legal
  | .entry (.memory l) => l.LegalMemory ∧ v.space.memories.size = 0
  | .entry (.exported e) => e.name ∉ v.exportNames ∧ v.space.HasTarget e
  | .entry (.start func) => v.startSeen = false ∧ v.space.HasFunction func ⟨[], []⟩
  | .entry (.element s) => ∃ type, RefType.ofTag? s.tag = some type ∧ v.space.TakesElements type s.mode ∧
      v.space.HasElements type s.init
  | .entry (.dataCount _) => v.space.dataCount = none
  | .entry (.data s) => v.space.TakesData s.mode
  | .entry .finish => v.bodiesSeen = v.space.definedFunctions ∧ ∀ count ∈ v.space.dataCount, count.toNat = v.dataSeen
  | .expr (.global d) body => ∃ t, d.type? = some t ∧ IsConstantExpr (v.space.addGlobal t) body t.value
  | .expr .elementOffset body => (∃ e ∈ v.lastElement, e.offsetPending = true) ∧ IsConstantExpr v.space body .i32
  | .expr .elementItem body => ∃ e ∈ v.lastElement, e.expressions = true ∧ IsConstantExpr v.space body (.ref e.type)
  | .expr (.code decls) body => v.JudgesBody decls body
  | .expr .dataOffset body => v.dataOffsetPending = true ∧ IsConstantExpr v.space body .i32

/-- The state after an item, but for the position. -/
def receive (v : Validator) (x : Item) : Validator :=
  { v with
    space := v.space.add x
    refs := declaring v.refs x.mentions
    exportNames := match x with
      | .entry (.exported e) => v.exportNames.insert e.name
      | _ => v.exportNames
    startSeen := match x with
      | .entry (.start _) => true
      | _ => v.startSeen
    bodiesSeen := match x with
      | .expr (.code _) _ => v.bodiesSeen + 1
      | _ => v.bodiesSeen
    dataSeen := match x with
      | .entry (.data _) => v.dataSeen + 1
      | _ => v.dataSeen
    lastElement := match x with
      | .entry (.element s) =>
        (RefType.ofTag? s.tag).map fun type => ⟨type, s.mode.isActive, s.init = .expressions⟩
      | .expr .elementOffset _ => v.lastElement.map fun e => { e with offsetPending := false }
      | _ => v.lastElement
    dataOffsetPending := match x with
      | .entry (.data s) => s.mode.isActive
      | .expr .dataOffset _ => false
      | _ => v.dataOffsetPending
    expr := match x with
      | .expr .. => none
      | .entry _ => v.expr }

/-- An item of a section may come next. -/
def Follows (v : Validator) (next : Option Section) : Prop :=
  v.position ≠ .finish ∧ ∀ s ∈ next, v.position.rank ≤ s.rank

/-- The state at another position. -/
def moveTo (v : Validator) (p : Section) : Validator := { v with position := p }

theorem moveTo_space (v : Validator) (p : Section) : (v.moveTo p).space = v.space := rfl

theorem moveTo_refs (v : Validator) (p : Section) : (v.moveTo p).refs = v.refs := rfl

/-- The state after an item. -/
def after (v : Validator) (x : Item) : Validator := (v.receive x).moveTo (x.section?.getD v.position)

/-! ## Steps of the validator -/

variable {v v' : Validator} {u : Unit}

theorem advance_ok_iff {next : Section} :
    advance next v = .ok u v' ↔ v.Follows (some next) ∧ v' = { v with position := next } := by
  unfold advance Follows isEnded
  by_cases ended : v.position = .finish
  · simp [ended]
  · simp only [ended, decide_false, Bool.false_eq_true, if_false, ne_eq, not_false_eq_true, true_and, Option.mem_def,
      Option.some.injEq, forall_eq']
    split
    · simp; omega
    · simp [eq_comm]; omega

@[simp] theorem extend_ok_iff {f : IndexSpace → IndexSpace} :
    extend f v = .ok u v' ↔ v' = { v with space := f v.space } := by
  simp [extend, eq_comm]

@[simp] theorem lookup_ok_iff {α : Type} {f : IndexSpace → Verdict α} {a : α} :
    lookup f v = .ok a v' ↔ f v.space = .ok a ∧ v' = v := by
  unfold lookup
  cases f v.space <;> simp [eq_comm]

/-- A lookup of which only the success matters. -/
theorem lookup_bind_ok_iff {α : Type} {f : IndexSpace → Verdict α} {m : Step Validator Unit} :
    (lookup f >>= fun _ => m) v = .ok u v' ↔ (∃ a, f v.space = .ok a) ∧ m v = .ok u v' := by
  simp only [Outcome.bind_ok_iff, lookup_ok_iff]
  constructor
  · rintro ⟨a, _, ⟨found, rfl⟩, rest⟩
    exact ⟨⟨a, found⟩, rest⟩
  · rintro ⟨⟨a, found⟩, rest⟩
    exact ⟨a, v, ⟨found, rfl⟩, rest⟩

theorem find_ok_exists_iff {α : Type} {kind : IndexKind} {entries : Array α} {index : UInt32} :
    (∃ a, IndexSpace.find kind entries index = .ok a) ↔ index.toNat < entries.size := by
  simp only [IndexSpace.find_ok_iff, Array.getElem?_eq_some_iff, exists_comm, exists_eq', exists_prop, and_true]

theorem declare_ok_iff {func : UInt32} :
    declare func v = .ok u v' ↔
      (∃ type, v.space.HasFunction func type) ∧ v' = { v with refs := v.refs.insert func } := by
  rw [declare, lookup_bind_ok_iff, Outcome.modify_ok_iff, eq_comm]
  simp only [IndexSpace.function_ok_iff, IndexSpace.HasFunction]

theorem declareAll_cons {func : UInt32} {funcs : List UInt32} :
    declareAll (func :: funcs) v = (declare func >>= fun _ => declareAll funcs) v := by
  show _ = EStateM.bind _ _ v
  unfold declareAll EStateM.bind
  cases declare func v <;> rfl

theorem declareAll_ok_iff {funcs : List UInt32} :
    declareAll funcs v = .ok u v' ↔
      (∀ func ∈ funcs, ∃ type, v.space.HasFunction func type) ∧ v' = { v with refs := declaring v.refs funcs } := by
  induction funcs generalizing v with
  | nil => simp [declareAll, declaring, eq_comm]
  | cons func funcs ih =>
    rw [declareAll_cons, Outcome.bind_ok_iff, List.forall_mem_cons]
    constructor
    · rintro ⟨_, _, one, more⟩
      obtain ⟨known, rfl⟩ := declare_ok_iff.mp one
      obtain ⟨others, rfl⟩ := ih.mp more
      exact ⟨⟨known, others⟩, rfl⟩
    · rintro ⟨⟨known, others⟩, rfl⟩
      exact ⟨(), _, declare_ok_iff.mpr ⟨known, rfl⟩, ih.mpr ⟨others, rfl⟩⟩

theorem memory_ok_iff {l : Limits} :
    memory l v = .ok u v' ↔
      (l.LegalMemory ∧ v.space.memories.size = 0) ∧ v' = { v with space := v.space.addMemory l } := by
  simp only [memory, Outcome.bind_ok_iff, Outcome.lift_ok_iff, Limits.check_ok_iff, Outcome.get_ok_iff]
  constructor
  · rintro ⟨_, _, ⟨legal, rfl⟩, _, _, ⟨rfl, rfl⟩, rest⟩
    split at rest
    · cases rest
    · rename_i none
      exact ⟨⟨legal, by omega⟩, extend_ok_iff.mp rest⟩
  · rintro ⟨⟨legal, none⟩, rfl⟩
    refine ⟨(), v, ⟨legal, rfl⟩, v, v, ⟨rfl, rfl⟩, ?_⟩
    rw [if_neg (by omega)]
    exact extend_ok_iff.mpr rfl

/-- A declaration that is checked and then added. -/
theorem checked_extend_ok_iff {α : Type} {x : Verdict α} {o : Option α} {legal : Prop}
    {f : IndexSpace → α → IndexSpace} (meaning : ∀ t, x = .ok t ↔ legal ∧ o = some t) :
    ((liftM x : Step Validator α) >>= fun t => extend (f · t)) v = .ok u v' ↔
      (legal ∧ o.isSome) ∧ v' = { v with space := o.elim v.space (f v.space) } := by
  simp only [Outcome.bind_ok_iff, Outcome.lift_ok_iff, extend_ok_iff, meaning]
  constructor
  · rintro ⟨t, _, ⟨⟨held, found⟩, rfl⟩, rfl⟩
    simp [held, found]
  · rintro ⟨⟨held, some⟩, rfl⟩
    obtain ⟨t, found⟩ := Option.isSome_iff_exists.mp some
    exact ⟨t, v, ⟨⟨held, found⟩, rfl⟩, by simp [found]⟩

theorem table_ok_iff {d : TableDecl} :
    ((liftM d.check : Step Validator TableType) >>= fun t => extend (·.addTable t)) v = .ok u v' ↔
      d.Legal ∧ v' = { v with space := d.type?.elim v.space v.space.addTable } := by
  rw [TableDecl.legal_iff]
  exact checked_extend_ok_iff fun _ => TableDecl.check_ok_iff

theorem imported_ok_iff {desc : ImportDesc} :
    imported desc v = .ok u v' ↔
      v.JudgesImport desc ∧ v' = { v with space := v.space.addImport desc } := by
  cases desc with
  | function type =>
    rw [imported, lookup_bind_ok_iff, extend_ok_iff]
    exact and_congr_left' find_ok_exists_iff
  | table d => exact table_ok_iff
  | memory l => exact memory_ok_iff
  | global d =>
    have meaning (t : GlobalType) : d.check = .ok t ↔ True ∧ d.type? = some t := by
      simp [GlobalDecl.check_ok_iff]
    rw [imported, checked_extend_ok_iff meaning, true_and, ← GlobalDecl.legal_iff]
    rfl

theorem exportName_ok_iff {name : String} :
    exportName name v = .ok u v' ↔
      name ∉ v.exportNames ∧ v' = { v with exportNames := v.exportNames.insert name } := by
  unfold exportName
  by_cases known : name ∈ v.exportNames
  · simp [known]
  · rw [if_neg (by simpa using known), EStateM.Result.ok.injEq]
    exact ⟨fun ⟨_, equal⟩ => ⟨known, equal.symm⟩, fun ⟨_, equal⟩ => ⟨rfl, equal.symm⟩⟩

theorem pure_ok_iff : (pure () : Step Validator Unit) v = .ok u v' ↔ v' = v := by
  simp [eq_comm]

theorem exportTarget_ok_iff {e : Export} :
    exportTarget e v = .ok u v' ↔
      v.space.HasTarget e ∧ v' = { v with refs := declaring v.refs e.mentions } := by
  obtain ⟨name, kind, index⟩ := e
  unfold exportTarget IndexSpace.HasTarget Export.mentions
  dsimp only
  split
  · simp [declare_ok_iff, declaring]
  · rw [lookup_bind_ok_iff, pure_ok_iff, IndexSpace.table, find_ok_exists_iff]
    simp [declaring]
  · rw [lookup_bind_ok_iff, pure_ok_iff, IndexSpace.memory, find_ok_exists_iff]
    simp [declaring]
  · rw [lookup_bind_ok_iff, pure_ok_iff, IndexSpace.global, find_ok_exists_iff]
    simp [declaring]
  · simp_all

theorem elementMode_ok_iff {type : RefType} {mode : ElementMode} :
    elementMode type mode v = .ok u v' ↔ v.space.TakesElements type mode ∧ v' = v := by
  cases mode with
  | passive | declarative => exact pure_ok_iff.trans (true_and _).symm.to_iff
  | active table =>
    simp only [elementMode, Outcome.bind_ok_iff, lookup_ok_iff, IndexSpace.table, IndexSpace.find_ok_iff,
      IndexSpace.TakesElements]
    constructor
    · rintro ⟨⟨element, limits⟩, _, ⟨found, rfl⟩, rest⟩
      split at rest
      · cases rest
      · rename_i same
        obtain rfl : element = type := not_not.mp same
        exact ⟨⟨limits, found⟩, pure_ok_iff.mp rest⟩
    · rintro ⟨⟨limits, found⟩, rfl⟩
      exact ⟨⟨type, limits⟩, _, ⟨found, rfl⟩, by simp⟩

theorem elementInit_ok_iff {type : RefType} {init : ElementInit} :
    elementInit type init v = .ok u v' ↔
      v.space.HasElements type init ∧ v' = { v with refs := declaring v.refs init.mentions } := by
  cases init with
  | expressions => exact pure_ok_iff.trans (true_and _).symm.to_iff
  | functions funcs =>
    simp only [elementInit, IndexSpace.HasElements, ElementInit.mentions]
    by_cases same : type = .func
    · simp [same, declareAll_ok_iff]
    · simp [same, Outcome.bind_ok_iff]

theorem advance_bind_ok_iff {next : Section} {m : Step Validator Unit} :
    (advance next >>= fun _ => m) v = .ok u v' ↔
      v.Follows (some next) ∧ m { v with position := next } = .ok u v' := by
  simp only [Outcome.bind_ok_iff, advance_ok_iff]
  constructor
  · rintro ⟨_, _, ⟨follows, rfl⟩, rest⟩
    exact ⟨follows, rest⟩
  · rintro ⟨follows, rest⟩
    exact ⟨(), _, ⟨follows, rfl⟩, rest⟩

/-- A declaring of no functions changes nothing. -/
theorem start_ok_iff {func : UInt32} :
    start func v = .ok u v' ↔
      v.Follows (some .start) ∧ (v.startSeen = false ∧ v.space.HasFunction func ⟨[], []⟩) ∧
        v' = v.after (.entry (.start func)) := by
  simp only [start, Outcome.bind_ok_iff, Outcome.get_ok_iff]
  constructor
  · rintro ⟨_, _, ⟨rfl, rfl⟩, rest⟩
    obtain ⟨unseen, rest⟩ := Outcome.guard_ok_iff.mp rest
    obtain ⟨follows, rest⟩ := advance_bind_ok_iff.mp rest
    simp only [Outcome.bind_ok_iff, Outcome.modify_ok_iff, lookup_ok_iff] at rest
    obtain ⟨_, _, rfl, type, _, ⟨found, rfl⟩, last⟩ := rest
    obtain ⟨empty, rfl⟩ := Outcome.last_guard_ok_iff.mp last
    obtain rfl := FuncType.isEmpty_iff.mp (eq_true_of_ne_false empty)
    exact ⟨follows, ⟨eq_false_of_ne_true unseen, IndexSpace.function_ok_iff.mp found⟩, rfl⟩
  · rintro ⟨follows, ⟨unseen, known⟩, rfl⟩
    refine ⟨v, v, ⟨rfl, rfl⟩, Outcome.guard_ok_iff.mpr ⟨by simp [unseen], ?_⟩⟩
    refine advance_bind_ok_iff.mpr ⟨follows, ?_⟩
    simp only [Outcome.bind_ok_iff, Outcome.modify_ok_iff, lookup_ok_iff]
    exact ⟨(), _, rfl, ⟨[], []⟩, _, ⟨IndexSpace.function_ok_iff.mpr known, rfl⟩,
      Outcome.last_guard_ok_iff.mpr ⟨by decide, rfl⟩⟩

theorem element_ok_iff {s : ElementSegment} :
    element s v = .ok u v' ↔
      v.Follows (some .element) ∧ v.Judges (.entry (.element s)) ∧ v' = v.after (.entry (.element s)) := by
  rw [element, advance_bind_ok_iff]
  simp only [Outcome.bind_ok_iff, Outcome.lift_ok_iff, RefType.check_ok_iff, ← RefType.ofTag?_some_iff,
    elementMode_ok_iff, elementInit_ok_iff, extend_ok_iff, Outcome.modify_ok_iff, Judges]
  constructor
  · rintro ⟨follows, type, _, ⟨found, rfl⟩, _, _, ⟨takes, rfl⟩, _, _, ⟨has, rfl⟩, _, _, rfl, rfl⟩
    refine ⟨follows, ⟨type, found, takes, has⟩, ?_⟩
    simp only [after, receive, IndexSpace.add, Item.mentions, found, Item.section?]
    rfl
  · rintro ⟨follows, ⟨type, found, takes, has⟩, rfl⟩
    refine ⟨follows, type, _, ⟨found, rfl⟩, (), _, ⟨takes, rfl⟩, (), _, ⟨has, rfl⟩, (), _, rfl, ?_⟩
    simp only [after, receive, IndexSpace.add, Item.mentions, found, Item.section?]
    rfl

theorem dataCount_ok_iff {count : UInt32} :
    dataCount count v = .ok u v' ↔
      v.Follows (some .dataCount) ∧ v.space.dataCount = none ∧ v' = v.after (.entry (.dataCount count)) := by
  simp only [dataCount, Outcome.bind_ok_iff, Outcome.get_ok_iff]
  constructor
  · rintro ⟨_, _, ⟨rfl, rfl⟩, rest⟩
    obtain ⟨none, rest⟩ := Outcome.guard_ok_iff.mp rest
    obtain ⟨follows, rest⟩ := advance_bind_ok_iff.mp rest
    exact ⟨follows, by simpa using none, extend_ok_iff.mp rest⟩
  · rintro ⟨follows, none, rfl⟩
    refine ⟨v, v, ⟨rfl, rfl⟩, Outcome.guard_ok_iff.mpr ⟨by simp [none], ?_⟩⟩
    exact advance_bind_ok_iff.mpr ⟨follows, extend_ok_iff.mpr rfl⟩

theorem data_ok_iff {s : DataSegment} :
    data s v = .ok u v' ↔
      v.Follows (some .data) ∧ v.space.TakesData s.mode ∧ v' = v.after (.entry (.data s)) := by
  rw [data, advance_bind_ok_iff]
  obtain ⟨mode, init⟩ := s
  cases mode with
  | passive =>
    dsimp only
    rw [Outcome.modify_ok_iff, eq_comm]
    exact and_congr_right' (true_and _).symm.to_iff
  | active memory =>
    dsimp only
    rw [lookup_bind_ok_iff, Outcome.modify_ok_iff, IndexSpace.memory, find_ok_exists_iff, eq_comm]
    rfl

theorem finish_ok_iff :
    finish v = .ok u v' ↔
      v.Follows (some .finish) ∧ v.Judges (.entry .finish) ∧ v' = v.after (.entry .finish) := by
  rw [finish, advance_bind_ok_iff]
  simp only [Outcome.bind_ok_iff, Outcome.get_ok_iff]
  constructor
  · rintro ⟨follows, _, _, ⟨rfl, rfl⟩, rest⟩
    obtain ⟨bodies, rest⟩ := Outcome.guard_ok_iff.mp rest
    refine ⟨follows, ⟨not_not.mp bodies, ?_⟩, ?_⟩
    · intro count declared
      rw [Option.mem_def.mp declared] at rest
      exact not_not.mp (Outcome.last_guard_ok_iff.mp rest).1
    · cases declared : v.space.dataCount with
      | none =>
        rw [declared] at rest
        exact pure_ok_iff.mp rest
      | some count =>
        rw [declared] at rest
        exact (Outcome.last_guard_ok_iff.mp rest).2.symm
  · rintro ⟨follows, ⟨bodies, counted⟩, rfl⟩
    refine ⟨follows, _, _, ⟨rfl, rfl⟩, Outcome.guard_ok_iff.mpr ⟨not_not.mpr bodies, ?_⟩⟩
    cases declared : v.space.dataCount with
    | none => exact pure_ok_iff.mpr rfl
    | some count => exact Outcome.last_guard_ok_iff.mpr ⟨not_not.mpr (counted count declared), rfl⟩

theorem entry_ok_iff {e : Entry} :
    entry e v = .ok u v' ↔
      v.Follows (Item.entry e).section? ∧ v.Judges (.entry e) ∧ v' = v.after (.entry e) := by
  cases e with
  | header version =>
    show advance .header v = _ ↔ _
    rw [advance_ok_iff]
    exact and_congr_right' (true_and _).symm.to_iff
  | custom name payload =>
    show custom v = _ ↔ _
    unfold custom isEnded Follows
    by_cases ended : v.position = .finish
    · simp [ended]
    · rw [if_neg (by simpa using ended), EStateM.Result.ok.injEq]
      exact ⟨fun ⟨_, same⟩ => ⟨⟨ended, nofun⟩, trivial, same.symm⟩, fun ⟨_, _, same⟩ => ⟨rfl, same.symm⟩⟩
  | type d =>
    have meaning (t : FuncType) : d.check = .ok t ↔ True ∧ d.type? = some t := by simp [FuncDecl.check_ok_iff]
    rw [entry, advance_bind_ok_iff, checked_extend_ok_iff meaning, true_and, ← FuncDecl.legal_iff]
    rfl
  | imported i =>
    rw [entry, advance_bind_ok_iff, imported_ok_iff]
    rfl
  | function type =>
    rw [entry, advance_bind_ok_iff, lookup_bind_ok_iff, extend_ok_iff, IndexSpace.type, find_ok_exists_iff]
    rfl
  | table d =>
    rw [entry, advance_bind_ok_iff, table_ok_iff]
    rfl
  | memory l =>
    rw [entry, advance_bind_ok_iff, memory_ok_iff]
    rfl
  | exported e =>
    rw [entry, advance_bind_ok_iff]
    simp only [Outcome.bind_ok_iff, exportName_ok_iff, exportTarget_ok_iff]
    constructor
    · rintro ⟨follows, _, _, ⟨fresh, rfl⟩, target, rfl⟩
      exact ⟨follows, ⟨fresh, target⟩, rfl⟩
    · rintro ⟨follows, ⟨fresh, target⟩, rfl⟩
      exact ⟨follows, (), _, ⟨fresh, rfl⟩, target, rfl⟩
  | start func => exact start_ok_iff
  | element s => exact element_ok_iff
  | dataCount count => exact dataCount_ok_iff
  | data s => exact data_ok_iff
  | finish => exact finish_ok_iff

/-! ## Expressions -/

theorem exprEnd_ok_iff {Γ : Scope} {constant : Bool} {c : Checker} :
    exprEnd { v with expr := some ⟨Γ, constant, c⟩ } = .ok u v' ↔
      (∃ c', Check.finish c = .ok () c') ∧ v' = { v with expr := none } := by
  unfold exprEnd
  dsimp only
  cases Check.finish c with
  | error violation c' => simp
  | ok _ c' =>
    simp only [EStateM.Result.ok.injEq, true_and, exists_eq']
    exact eq_comm

theorem bodyInstruction_ok_iff {Γ : Scope} {c : Checker} {i : Instruction} :
    consumer.instruction i { v with expr := some ⟨Γ, false, c⟩ } = .ok u v' ↔
      ∃ c', Check.step Γ i c = .ok () c' ∧ v' = { v with expr := some ⟨Γ, false, c'⟩ } := by
  show bodyInstruction Γ c i { v with expr := none } = _ ↔ _
  unfold bodyInstruction
  cases Check.step Γ i c with
  | error violation c' => simp
  | ok _ c' =>
    simp only [EStateM.Result.ok.injEq, true_and, exists_eq_left']
    exact eq_comm

theorem constantInstruction_ok_iff {Γ : Scope} {c : Checker} {i : Instruction} {refs : FuncRefs} :
    consumer.instruction i { v with refs := refs, expr := some ⟨Γ, true, c⟩ } = .ok u v' ↔
      ∃ e, ConstantExpr.step Γ i ⟨refs, c⟩ = .ok () e ∧
        v' = { v with refs := e.refs, expr := some ⟨Γ, true, e.checker⟩ } := by
  show constantInstruction Γ c i { v with refs := refs, expr := none } = _ ↔ _
  unfold constantInstruction
  dsimp only
  cases ConstantExpr.step Γ i ⟨refs, c⟩ with
  | error violation e => simp
  | ok _ e =>
    simp only [EStateM.Result.ok.injEq, true_and, exists_eq_left']
    exact eq_comm

/-- A body is delivered to the validator as it is to the type checker. -/
theorem feed_body_ok_iff {Γ : Scope} {c : Checker} {body : List Instruction} :
    consumer.feed body { v with expr := some ⟨Γ, false, c⟩ } = .ok u v' ↔
      (∃ c', Check.expression Γ body c = .ok () c') ∧ v' = { v with expr := none } := by
  induction body generalizing c with
  | nil => exact exprEnd_ok_iff
  | cons i rest ih =>
    simp only [Consumer.feed_cons_ok_iff, bodyInstruction_ok_iff, Check.expression_cons_ok_iff]
    constructor
    · rintro ⟨_, ⟨d, one, rfl⟩, more⟩
      obtain ⟨⟨c', done⟩, rfl⟩ := ih.mp more
      exact ⟨⟨c', d, one, done⟩, rfl⟩
    · rintro ⟨⟨c', d, one, done⟩, rfl⟩
      exact ⟨_, ⟨d, one, rfl⟩, ih.mpr ⟨⟨c', done⟩, rfl⟩⟩

/-- A constant expression is delivered to the validator as it is to the checker of constants. -/
theorem feed_constant_ok_iff {Γ : Scope} {c : Checker} {refs : FuncRefs} {body : List Instruction} :
    consumer.feed body { v with refs := refs, expr := some ⟨Γ, true, c⟩ } = .ok u v' ↔
      ∃ e, ConstantExpr.expression Γ body ⟨refs, c⟩ = .ok () e ∧ v' = { v with refs := e.refs, expr := none } := by
  induction body generalizing c refs with
  | nil =>
    refine (exprEnd_ok_iff (v := { v with refs := refs })).trans ?_
    have whole : ConstantExpr.expression Γ [] ⟨refs, c⟩ = ConstantExpr.finish ⟨refs, c⟩ := rfl
    rw [whole, ConstantExpr.finish]
    cases Check.finish c with
    | error violation c' => simp
    | ok _ c' => simp
  | cons i rest ih =>
    simp only [Consumer.feed_cons_ok_iff, constantInstruction_ok_iff, ConstantExpr.expression_cons_ok_iff]
    constructor
    · rintro ⟨_, ⟨d, one, rfl⟩, more⟩
      obtain ⟨e, done, rfl⟩ := ih.mp more
      exact ⟨e, ⟨d, one, done⟩, rfl⟩
    · rintro ⟨e, ⟨d, one, done⟩, rfl⟩
      exact ⟨_, ⟨d, one, rfl⟩, ih.mpr ⟨e, done, rfl⟩⟩

/-- A constant expression begun in a state. -/
theorem constant_ok_iff {t : ValueType} {body : List Instruction} :
    (beginConstant t >>= fun _ => consumer.feed body) v = .ok u v' ↔
      IsConstantExpr v.space body t ∧
        v' = { v with refs := declaring v.refs (body.flatMap Instruction.mentions), expr := none } := by
  have begun : beginConstant t v = .ok () { v with expr := some ⟨.constant v.space, true, .start [t]⟩ } := rfl
  rw [Outcome.bind_of_ok begun, feed_constant_ok_iff]
  constructor
  · rintro ⟨e, done, rfl⟩
    obtain ⟨constant, rfl⟩ := ConstantExpr.expression_ok_iff.mp done
    exact ⟨constant, rfl⟩
  · rintro ⟨constant, rfl⟩
    exact ⟨_, ConstantExpr.expression_ok_iff.mpr ⟨constant, rfl⟩, rfl⟩

theorem item_expr {x : Site} {body : List Instruction} :
    consumer.item (.expr x body) = (site x >>= fun _ => consumer.feed body) := by
  show ((site x >>= fun _ => pure true) >>= fun takes => if takes then consumer.feed body else pure ()) = _
  rw [bind_assoc]
  simp only [pure_bind, if_true]

/-- A site whose section comes first. -/
theorem site_bind_ok_iff {next : Section} {m : Step Validator Unit} {body : List Instruction} :
    ((advance next >>= fun _ => m) >>= fun _ => consumer.feed body) v = .ok u v' ↔
      v.Follows (some next) ∧ (m >>= fun _ => consumer.feed body) { v with position := next } = .ok u v' := by
  rw [bind_assoc]
  exact advance_bind_ok_iff

/-- A step on the state and a constant expression after it. -/
theorem constant_after_ok_iff {α : Type} {m : Step Validator α} {t : α → ValueType} {body : List Instruction} :
    ((m >>= fun a => beginConstant (t a)) >>= fun _ => consumer.feed body) v = .ok u v' ↔
      ∃ a w, m v = .ok a w ∧ IsConstantExpr w.space body (t a) ∧
        v' = { w with refs := declaring w.refs (body.flatMap Instruction.mentions), expr := none } := by
  rw [bind_assoc, Outcome.bind_ok_iff]
  simp only [constant_ok_iff]

theorem takeElementOffset_ok_iff :
    takeElementOffset v = .ok u v' ↔
      (∃ e ∈ v.lastElement, e.offsetPending = true) ∧
        v' = { v with lastElement := v.lastElement.map fun e => { e with offsetPending := false } } := by
  unfold takeElementOffset
  cases v.lastElement with
  | none => simp
  | some e =>
    cases pending : e.offsetPending with
    | false => simp [pending]
    | true =>
      simp only [pending, if_true, EStateM.Result.ok.injEq, true_and, Option.mem_some, exists_eq_left']
      exact eq_comm

theorem itemType_ok_iff {type : RefType} :
    itemType v = .ok type v' ↔ (∃ e ∈ v.lastElement, e.expressions = true ∧ e.type = type) ∧ v' = v := by
  unfold itemType
  cases v.lastElement with
  | none => simp
  | some e =>
    cases listed : e.expressions with
    | false => simp [listed]
    | true =>
      simp only [listed, if_true, EStateM.Result.ok.injEq, Option.mem_some, exists_eq_left', true_and]
      exact and_congr_right' eq_comm

theorem takeDataOffset_ok_iff :
    takeDataOffset v = .ok u v' ↔ v.dataOffsetPending = true ∧ v' = { v with dataOffsetPending := false } := by
  unfold takeDataOffset
  cases v.dataOffsetPending with
  | false => simp
  | true => simp [eq_comm]

theorem takeBody_ok_iff {func : Nat} :
    takeBody v = .ok func v' ↔
      v.bodiesSeen < v.space.definedFunctions ∧ func = v.nextBody ∧ v' = { v with bodiesSeen := v.bodiesSeen + 1 } := by
  unfold takeBody
  split
  · simp; omega
  · simp [eq_comm]; omega

/-- A body begun in a state. -/
theorem body_ok_iff {decls : List LocalDecl} {body : List Instruction} :
    (beginBody decls >>= fun _ => consumer.feed body) v = .ok u v' ↔
      v.JudgesBody decls body ∧ v' = { v with bodiesSeen := v.bodiesSeen + 1, expr := none } := by
  simp only [beginBody, bind_assoc]
  simp only [Outcome.bind_ok_iff, takeBody_ok_iff, lookup_ok_iff, Outcome.lift_ok_iff, Outcome.modify_ok_iff,
    IndexSpace.function_ok_iff]
  constructor
  · rintro ⟨_, _, ⟨next, rfl, rfl⟩, type, _, ⟨known, rfl⟩, locals, _, ⟨declared, rfl⟩, _, _, rfl, fed⟩
    obtain ⟨accepts, rfl⟩ := feed_body_ok_iff.mp fed
    exact ⟨⟨next, type, locals, known, declared, accepts⟩, rfl⟩
  · rintro ⟨⟨next, type, locals, known, declared, accepts⟩, rfl⟩
    exact ⟨_, _, ⟨next, rfl, rfl⟩, type, _, ⟨known, rfl⟩, locals, _, ⟨declared, rfl⟩, (), _, rfl,
      feed_body_ok_iff.mpr ⟨accepts, rfl⟩⟩

theorem expr_ok_iff {x : Site} {body : List Instruction} :
    consumer.item (.expr x body) v = .ok u v' ↔
      v.Follows (Item.expr x body).section? ∧ v.Judges (.expr x body) ∧ v' = v.after (.expr x body) := by
  rw [item_expr]
  cases x with
  | global d =>
    rw [site, site_bind_ok_iff, bind_assoc, Outcome.bind_ok_iff]
    simp only [constant_after_ok_iff, Outcome.lift_ok_iff, GlobalDecl.check_ok_iff, extend_ok_iff]
    constructor
    · rintro ⟨follows, t, _, ⟨found, rfl⟩, _, _, rfl, constant, rfl⟩
      refine ⟨follows, ⟨t, found, constant⟩, ?_⟩
      simp only [after, receive, IndexSpace.add, found]
      rfl
    · rintro ⟨follows, ⟨t, found, constant⟩, rfl⟩
      refine ⟨follows, t, _, ⟨found, rfl⟩, (), _, rfl, constant, ?_⟩
      simp only [after, receive, IndexSpace.add, found]
      rfl
  | elementOffset =>
    rw [site, site_bind_ok_iff, constant_after_ok_iff]
    simp only [takeElementOffset_ok_iff]
    constructor
    · rintro ⟨follows, _, _, ⟨pending, rfl⟩, constant, rfl⟩
      exact ⟨follows, ⟨pending, constant⟩, rfl⟩
    · rintro ⟨follows, ⟨pending, constant⟩, rfl⟩
      exact ⟨follows, (), _, ⟨pending, rfl⟩, constant, rfl⟩
  | elementItem =>
    rw [site, site_bind_ok_iff, constant_after_ok_iff]
    simp only [itemType_ok_iff]
    constructor
    · rintro ⟨follows, type, _, ⟨⟨e, last, listed, rfl⟩, rfl⟩, constant, rfl⟩
      exact ⟨follows, ⟨e, last, listed, constant⟩, rfl⟩
    · rintro ⟨follows, ⟨e, last, listed, constant⟩, rfl⟩
      exact ⟨follows, e.type, _, ⟨⟨e, last, listed, rfl⟩, rfl⟩, constant, rfl⟩
  | code decls =>
    rw [site, site_bind_ok_iff, body_ok_iff]
    rfl
  | dataOffset =>
    rw [site, site_bind_ok_iff, constant_after_ok_iff]
    simp only [takeDataOffset_ok_iff]
    constructor
    · rintro ⟨follows, _, _, ⟨pending, rfl⟩, constant, rfl⟩
      exact ⟨follows, ⟨pending, constant⟩, rfl⟩
    · rintro ⟨follows, ⟨pending, constant⟩, rfl⟩
      exact ⟨follows, (), _, ⟨pending, rfl⟩, constant, rfl⟩

/-- The validator accepts an item that may come next and breaks no rule. -/
theorem item_ok_iff {x : Item} :
    consumer.item x v = .ok u v' ↔ v.Follows x.section? ∧ v.Judges x ∧ v' = v.after x := by
  cases x with
  | entry e => exact entry_ok_iff
  | expr x body => exact expr_ok_iff

end Validator

end Wasm
