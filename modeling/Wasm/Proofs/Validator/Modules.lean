import Wasm.Proofs.Validator.Sections

/-! # Validation of whole modules

Section by section, what the validator asks in the state a section begins with is what validity asks of the section,
judged against the index spaces and the references of the whole module.
-/

namespace Wasm

namespace Validator

variable {v : Validator}

/-! ## Sections whose entries make no difference to each other -/

theorem judges_types_iff {ds : List FuncDecl} :
    v.JudgesAll (ds.map fun d => .entry (.type d)) ↔ ∀ d ∈ ds, d.Legal :=
  judgesAll_map_iff fun _ _ _ => Iff.rfl

theorem judges_functions_iff {types : List UInt32} :
    v.JudgesAll (types.map fun type => .entry (.function type)) ↔
      ∀ type ∈ types, type.toNat < v.space.types.size :=
  judgesAll_map_iff fun _ _ _ => Iff.rfl

theorem judges_tables_iff {ds : List TableDecl} :
    v.JudgesAll (ds.map fun d => .entry (.table d)) ↔ ∀ d ∈ ds, d.Legal :=
  judgesAll_map_iff fun _ _ _ => Iff.rfl

/-! ## Memories -/

/-- There is room for memories: none is asked for, or only one altogether. -/
theorem judges_memories_iff {ls : List Limits} :
    v.JudgesAll (ls.map fun l => .entry (.memory l)) ↔
      (∀ l ∈ ls, l.LegalMemory) ∧ (ls.length = 0 ∨ v.space.memories.size + ls.length ≤ 1) := by
  induction ls generalizing v with
  | nil => simp [JudgesAll]
  | cons l ls ih =>
    have grown : (v.receive (.entry (.memory l))).space.memories.size = v.space.memories.size + 1 :=
      Array.size_push ..
    rw [List.map_cons, JudgesAll, ih, grown, List.forall_mem_cons, Judges, List.length_cons]
    constructor
    · rintro ⟨⟨legal, none⟩, others, room⟩
      exact ⟨⟨legal, others⟩, by omega⟩
    · rintro ⟨⟨legal, others⟩, room⟩
      exact ⟨⟨legal, by omega⟩, others, by omega⟩

theorem receive_import_types (i : Import) : (v.receive (.entry (.imported i))).space.types = v.space.types := by
  obtain ⟨_, _, _ | d | _ | d⟩ := i
  · rfl
  · show (d.type?.elim v.space v.space.addTable).types = _
    cases d.type? <;> rfl
  · rfl
  · show (d.type?.elim v.space v.space.importGlobal).types = _
    cases d.type? <;> rfl

theorem receive_import_memories (i : Import) :
    (v.receive (.entry (.imported i))).space.memories.size =
      v.space.memories.size + i.desc.memory?.toList.length := by
  obtain ⟨_, _, _ | d | _ | d⟩ := i
  · rfl
  · show (d.type?.elim v.space v.space.addTable).memories.size = _
    cases d.type? <;> rfl
  · exact Array.size_push ..
  · show (d.type?.elim v.space v.space.importGlobal).memories.size = _
    cases d.type? <;> rfl

theorem judgesImport_iff {desc : ImportDesc} {C : IndexSpace} (types : v.space.types = C.types) :
    v.JudgesImport desc ↔ desc.Legal C ∧ (desc.memory?.isSome → v.space.memories.size = 0) := by
  cases desc <;> simp [JudgesImport, ImportDesc.Legal, ImportDesc.memory?, types]

theorem judges_imports_iff {is : List Import} {C : IndexSpace} (types : v.space.types = C.types) :
    v.JudgesAll (is.map fun i => .entry (.imported i)) ↔
      (∀ i ∈ is, i.desc.Legal C) ∧
        ((is.filterMap (·.desc.memory?)).length = 0 ∨
          v.space.memories.size + (is.filterMap (·.desc.memory?)).length ≤ 1) := by
  induction is generalizing v with
  | nil => simp [JudgesAll]
  | cons i is ih =>
    rw [List.map_cons, JudgesAll, ih ((receive_import_types i).trans types), List.forall_mem_cons, Judges,
      judgesImport_iff types, receive_import_memories, List.filterMap_cons]
    cases i.desc.memory? with
    | none => simp [and_assoc]
    | some l =>
      simp only [Option.isSome_some, forall_const, Option.toList_some, List.length_cons, List.length_nil]
      constructor
      · rintro ⟨⟨legal, none⟩, others, room⟩
        exact ⟨⟨legal, others⟩, by omega⟩
      · rintro ⟨⟨legal, others⟩, room⟩
        exact ⟨⟨legal, by omega⟩, others, by omega⟩

/-! ## Constant expressions -/

/-- Index spaces that agree on all that constant expressions can name. -/
structure SameConstants (S C : IndexSpace) : Prop where
  types : S.types = C.types
  functions : S.functions = C.functions
  imported : S.importedGlobals = C.importedGlobals
  declared : S.importedGlobals ≤ S.globals.size
  globals : ∀ n < S.importedGlobals, S.globals[n]? = C.globals[n]?

theorem SameConstants.addGlobal {S C : IndexSpace} (same : SameConstants S C) (t : GlobalType) :
    SameConstants (S.addGlobal t) C where
  types := same.types
  functions := same.functions
  imported := same.imported
  declared := by
    have := same.declared
    simp only [IndexSpace.addGlobal, Array.size_push]
    omega
  globals n below := by
    have := same.declared
    rw [← same.globals n below]
    simp only [IndexSpace.addGlobal] at below ⊢
    rw [Array.getElem?_push_lt (by omega), Array.getElem?_eq_getElem (by omega)]

theorem SameConstants.isConstant_iff {S C : IndexSpace} (same : SameConstants S C) {op : Plain} {t : ValueType} :
    op.IsConstant S t ↔ op.IsConstant C t := by
  have functions (func : UInt32) (type : FuncType) : S.HasFunction func type ↔ C.HasFunction func type := by
    simp only [IndexSpace.HasFunction, same.functions, same.types]
  constructor
  · intro constant
    cases constant with
    | refFunc known => exact .refFunc ((functions _ _).mp known)
    | globalGet imported fixed =>
      exact .globalGet (same.imported ▸ imported) (same.globals _ imported ▸ fixed)
    | i32Const | i64Const | f32Const | f64Const | v128Const | refNull => constructor
  · intro constant
    cases constant with
    | refFunc known => exact .refFunc ((functions _ _).mpr known)
    | globalGet imported fixed =>
      have imported := same.imported ▸ imported
      exact .globalGet imported (same.globals _ imported ▸ fixed)
    | i32Const | i64Const | f32Const | f64Const | v128Const | refNull => constructor

theorem SameConstants.expr_iff {S C : IndexSpace} (same : SameConstants S C) {body : List Instruction}
    {t : ValueType} : IsConstantExpr S body t ↔ IsConstantExpr C body t := by
  simp only [IsConstantExpr, same.isConstant_iff]

theorem judges_globals_iff {gs : List Tree.Global} {C : IndexSpace} (same : SameConstants v.space C) :
    v.JudgesAll (gs.map fun g => .expr (.global g.decl) g.init.toList) ↔
      ∀ g ∈ gs, g.decl.Legal ∧ ∀ type, g.decl.type? = some type → IsConstantExpr C g.init.toList type.value := by
  induction gs generalizing v with
  | nil => simp [JudgesAll]
  | cons g gs ih =>
    rw [List.map_cons, JudgesAll, List.forall_mem_cons, Judges, GlobalDecl.legal_iff]
    cases found : g.decl.type? with
    | none => simp
    | some type =>
      have grown : (v.receive (.expr (.global g.decl) g.init.toList)).space = v.space.addGlobal type := by
        show g.decl.type?.elim v.space v.space.addGlobal = _
        rw [found]
        rfl
      rw [ih (grown ▸ same.addGlobal type)]
      simp [(same.addGlobal type).expr_iff]

/-! ## Exports and the start function -/

theorem judges_exports_iff {es : List Export} :
    v.JudgesAll (es.map fun e => .entry (.exported e)) ↔
      (es.map (·.name)).Nodup ∧ (∀ e ∈ es, e.name ∉ v.exportNames) ∧ ∀ e ∈ es, v.space.HasTarget e := by
  induction es generalizing v with
  | nil => simp [JudgesAll]
  | cons e es ih =>
    have space : (v.receive (.entry (.exported e))).space = v.space := rfl
    have names : (v.receive (.entry (.exported e))).exportNames = v.exportNames.insert e.name := rfl
    rw [List.map_cons, JudgesAll, ih, space, names, Judges, List.map_cons, List.nodup_cons, List.forall_mem_cons,
      List.forall_mem_cons]
    simp only [Std.HashSet.mem_insert, beq_iff_eq, not_or, List.mem_map, not_exists, not_and]
    constructor
    · rintro ⟨⟨fresh, target⟩, distinct, others, targets⟩
      exact ⟨⟨fun x member equal => (others x member).1 equal.symm, distinct⟩,
        ⟨fresh, fun x member => (others x member).2⟩, target, targets⟩
    · rintro ⟨⟨apart, distinct⟩, ⟨fresh, others⟩, target, targets⟩
      exact ⟨⟨fresh, target⟩, distinct,
        fun x member => ⟨fun equal => apart x member equal.symm, others x member⟩, targets⟩

theorem judges_start_iff {start : Option UInt32} (unseen : v.startSeen = false) :
    v.JudgesAll (start.toList.map fun func => .entry (.start func)) ↔
      ∀ func ∈ start, v.space.HasFunction func ⟨[], []⟩ := by
  cases start with
  | none => simp [JudgesAll]
  | some func => simp [JudgesAll, Judges, unseen]

theorem judges_dataCount {dataCount : Option UInt32} (none : v.space.dataCount = none) :
    v.JudgesAll (dataCount.toList.map fun count => .entry (.dataCount count)) := by
  cases dataCount with
  | none => trivial
  | some count => exact ⟨none, trivial⟩

/-! ## Segments -/

/-- All that function indices in range need to name functions. -/
def FunctionsTyped (C : IndexSpace) : Prop := ∀ index ∈ C.functions, index.toNat < C.types.size

theorem FunctionsTyped.hasFunction_iff {C : IndexSpace} (typed : FunctionsTyped C) {func : UInt32} :
    (∃ type, C.HasFunction func type) ↔ func.toNat < C.functions.size := by
  constructor
  · rintro ⟨type, index, known, _⟩
    exact (Array.getElem?_eq_some_iff.mp known).1
  · intro below
    have member := typed C.functions[func.toNat] (Array.getElem_mem below)
    exact ⟨_, _, Array.getElem?_eq_getElem below, Array.getElem?_eq_getElem member⟩

theorem FunctionsTyped.hasTarget_iff {C : IndexSpace} (typed : FunctionsTyped C) {e : Export} :
    C.HasTarget e ↔ e.InRange C := by
  simp only [IndexSpace.HasTarget, Export.InRange, typed.hasFunction_iff]

theorem SameConstants.addElement {S C : IndexSpace} (same : SameConstants S C) (type : RefType) :
    SameConstants (S.addElement type) C :=
  ⟨same.types, same.functions, same.imported, same.declared, same.globals⟩

theorem judges_items_iff {items : List Expr} {last : OpenElement} {C : IndexSpace} (open_ : v.lastElement = some last)
    (same : SameConstants v.space C) :
    v.JudgesAll (items.map fun item => .expr .elementItem item.toList) ↔
      ∀ item ∈ items, last.expressions = true ∧ IsConstantExpr C item.toList (.ref last.type) := by
  rw [judgesAll_map_iff fun _ _ _ => Iff.rfl]
  simp [Judges, open_, same.expr_iff]

/-- The offset of a segment, if it has one; the segment stays open for its items. -/
theorem judges_offset_iff {e : Tree.Element} {last : OpenElement} {C : IndexSpace} (open_ : v.lastElement = some last)
    (pending : last.offsetPending = e.segment.mode.isActive) (same : SameConstants v.space C) :
    let offset := if e.segment.mode.isActive then [Item.expr .elementOffset e.offset.toList] else []
    (v.JudgesAll offset ↔ (e.segment.mode.isActive → IsConstantExpr C e.offset.toList .i32)) ∧
      (v.receiveAll offset).space = v.space ∧
      ∃ later, (v.receiveAll offset).lastElement = some later ∧ later.type = last.type ∧
        later.expressions = last.expressions := by
  cases active : e.segment.mode.isActive with
  | false => simp [JudgesAll, receiveAll, open_]
  | true =>
    rw [active] at pending
    refine ⟨?_, rfl, { last with offsetPending := false }, ?_, rfl, rfl⟩
    · simp [JudgesAll, Judges, open_, pending, same.expr_iff]
    · simp [receiveAll, receive, open_]

theorem takesElements_iff {S C : IndexSpace} {type : RefType} {mode : ElementMode} (tables : S.tables = C.tables) :
    S.TakesElements type mode ↔
      ∀ table, mode = .active table → ∃ limits, C.tables[table.toNat]? = some ⟨type, limits⟩ := by
  cases mode <;> simp [IndexSpace.TakesElements, tables]

theorem hasElements_iff {S C : IndexSpace} {type : RefType} {init : ElementInit} (same : SameConstants S C)
    (typed : FunctionsTyped C) :
    S.HasElements type init ↔
      ∀ funcs, init = .functions funcs → type = .func ∧ ∀ func ∈ funcs, func.toNat < C.functions.size := by
  have functions (func : UInt32) (type : FuncType) : S.HasFunction func type ↔ C.HasFunction func type := by
    simp only [IndexSpace.HasFunction, same.functions, same.types]
  cases init <;> simp [IndexSpace.HasElements, functions, typed.hasFunction_iff]

theorem isActive_iff {mode : ElementMode} : mode.isActive = true ↔ ∃ table, mode = .active table := by
  cases mode <;> simp [ElementMode.isActive]

theorem judges_element_iff {e : Tree.Element} {C : IndexSpace} (same : SameConstants v.space C)
    (tables : v.space.tables = C.tables) (typed : FunctionsTyped C) : v.JudgesAll e.stream ↔ e.Valid C := by
  rw [Tree.Element.stream, List.cons_append, JudgesAll, judgesAll_append, Judges, Tree.Element.Valid]
  cases found : RefType.ofTag? e.segment.tag with
  | none => simp
  | some type =>
    let w := v.receive (.entry (.element e.segment))
    have space : w.space = v.space.addElement type := by
      show (RefType.ofTag? e.segment.tag).elim v.space v.space.addElement = _
      rw [found]
      rfl
    have last : w.lastElement = some ⟨type, e.segment.mode.isActive, e.segment.init = .expressions⟩ := by
      show (RefType.ofTag? e.segment.tag).map _ = _
      rw [found]
      rfl
    obtain ⟨offset, kept, later, open_, sameType, sameInit⟩ :=
      judges_offset_iff (e := e) last rfl (space ▸ same.addElement type)
    rw [offset, judges_items_iff open_ (kept ▸ space ▸ same.addElement type), sameType, sameInit]
    simp only [Option.some.injEq, exists_eq_left', decide_eq_true_eq, Array.mem_toList_iff]
    rw [takesElements_iff tables, hasElements_iff same typed, isActive_iff]
    constructor
    · rintro ⟨⟨table, init⟩, offset, items⟩
      refine ⟨fun index active => ⟨table index active, offset ⟨index, active⟩⟩, fun funcs listed => ?_,
        fun item member => (items item member).2⟩
      refine ⟨(init funcs listed).1, (init funcs listed).2, Array.eq_empty_iff_forall_not_mem.mpr fun item member => ?_⟩
      cases listed.symm.trans (items item member).1
    · rintro ⟨active, listed, items⟩
      refine ⟨⟨fun table here => (active table here).1, fun funcs here => ⟨(listed funcs here).1, (listed funcs here).2.1⟩⟩,
        ?_, fun item member => ⟨?_, items item member⟩⟩
      · rintro ⟨table, here⟩
        exact (active table here).2
      · cases init : e.segment.init with
        | expressions => rfl
        | functions funcs =>
          rw [(listed funcs init).2.2] at member
          exact absurd member (Array.not_mem_empty item)

/-- Segments are judged each by itself. -/
theorem judges_elements_iff {es : List Tree.Element} {C : IndexSpace} (same : SameConstants v.space C)
    (tables : v.space.tables = C.tables) (typed : FunctionsTyped C) :
    v.JudgesAll (es.flatMap Tree.Element.stream) ↔ ∀ e ∈ es, e.Valid C := by
  induction es generalizing v with
  | nil => simp [JudgesAll]
  | cons e es ih =>
    have space : (v.receiveAll e.stream).space = (RefType.ofTag? e.segment.tag).elim v.space v.space.addElement := by
      rw [receiveAll_space, Tree.add_element_stream]
    rw [List.flatMap_cons, judgesAll_append, judges_element_iff same tables typed, List.forall_mem_cons]
    refine and_congr_right' (ih ?_ ?_)
    · rw [space]
      cases RefType.ofTag? e.segment.tag with
      | none => exact same
      | some type => exact same.addElement type
    · rw [space, ← tables]
      cases RefType.ofTag? e.segment.tag <;> rfl

theorem judges_data_iff {d : Tree.Data} : v.JudgesAll d.stream ↔ d.Valid v.space := by
  obtain ⟨⟨mode, payload⟩, offset⟩ := d
  cases mode with
  | passive =>
    simp [Tree.Data.stream, Tree.Data.Valid, JudgesAll, Judges, IndexSpace.TakesData, DataMode.isActive]
  | active memory =>
    have space : (v.receive (.entry (.data ⟨.active memory, payload⟩))).space = v.space := rfl
    have pending : (v.receive (.entry (.data ⟨.active memory, payload⟩))).dataOffsetPending = true := rfl
    simp [Tree.Data.stream, Tree.Data.Valid, JudgesAll, Judges, IndexSpace.TakesData, DataMode.isActive, space, pending]

theorem judges_datas_iff {ds : List Tree.Data} :
    v.JudgesAll (ds.flatMap Tree.Data.stream) ↔ ∀ d ∈ ds, d.Valid v.space := by
  induction ds generalizing v with
  | nil => simp [JudgesAll]
  | cons d ds ih =>
    have space : (v.receiveAll d.stream).space = v.space := by
      rw [receiveAll_space, Tree.Data.stream]
      cases d.segment.mode.isActive <;> rfl
    rw [List.flatMap_cons, judgesAll_append, judges_data_iff, List.forall_mem_cons, ih, space]

theorem receiveAll_datas_dataSeen {ds : List Tree.Data} :
    (v.receiveAll (ds.flatMap Tree.Data.stream)).dataSeen = v.dataSeen + ds.length := by
  induction ds generalizing v with
  | nil => rfl
  | cons d ds ih =>
    have one : (v.receiveAll d.stream).dataSeen = v.dataSeen + 1 := by
      rw [Tree.Data.stream]
      cases d.segment.mode.isActive <;> rfl
    rw [List.flatMap_cons, receiveAll_append, ih, one, List.length_cons]
    omega

/-! ## Bodies -/

/-- The functions whose bodies are still to come, by their type indices. -/
def awaited (v : Validator) : List UInt32 := v.space.functions.toList.drop v.nextBody

/-- The locals of a valid body are those that its runs declare behind the parameters. -/
theorem body_valid_iff {C : IndexSpace} {refs : FuncRefs} {type : FuncType} {b : Tree.Body} :
    b.Valid C refs type ↔
      ∃ locals, (Locals.ofTypes type.params).declare b.locals = .ok locals ∧
        Check.Accepts (.function C type.results locals refs) type.results b.instructions.toList := by
  simp only [Locals.declare_ok_iff]
  constructor
  · rintro ⟨types, stand, few, accepts⟩
    exact ⟨_, ⟨types, stand, few, rfl⟩, accepts⟩
  · rintro ⟨_, ⟨types, stand, few, rfl⟩, accepts⟩
    exact ⟨types, stand, few, accepts⟩

/-- A body goes with the first function that awaits one. -/
theorem judgesBody_iff {b : Tree.Body} (small : v.space.functions.size ≤ 2 ^ 32) :
    v.JudgesBody b.locals b.instructions.toList ↔
      ∃ index later, v.awaited = index :: later ∧
        ∃ type, v.space.types[index.toNat]? = some type ∧ b.Valid v.space v.refs type := by
  have room : v.bodiesSeen < v.space.definedFunctions ↔ v.nextBody < v.space.functions.size := by
    unfold nextBody IndexSpace.definedFunctions
    omega
  rw [JudgesBody, room]
  by_cases below : v.nextBody < v.space.functions.size
  · have same : v.nextBody.toUInt32.toNat = v.nextBody := UInt32.toNat_ofNat_of_lt' (Nat.lt_of_lt_of_le below small)
    have first : v.awaited = v.space.functions[v.nextBody] :: v.space.functions.toList.drop (v.nextBody + 1) := by
      rw [awaited, List.drop_eq_getElem_cons (by simpa using below), Array.getElem_toList]
    simp only [below, first, IndexSpace.HasFunction, same, Array.getElem?_eq_getElem below, true_and, body_valid_iff]
    simp
  · have none : v.awaited = [] := List.drop_eq_nil_of_le (by simpa using Nat.le_of_not_lt below)
    simp [below, none]

/-- Bodies go with functions one by one, and no more of them than functions. -/
theorem judges_code_iff {bs : List Tree.Body} (small : v.space.functions.size ≤ 2 ^ 32) :
    v.JudgesAll (bs.map fun b => .expr (.code b.locals) b.instructions.toList) ↔
      ∃ served later, v.awaited = served ++ later ∧
        List.Forall₂ (fun index b => ∃ type, v.space.types[UInt32.toNat index]? = some type ∧
          b.Valid v.space v.refs type) served bs := by
  induction bs generalizing v with
  | nil => simp [JudgesAll]
  | cons b bs ih =>
    let w := v.receive (.expr (.code b.locals) b.instructions.toList)
    have next : w.awaited = v.awaited.tail := by
      rw [awaited, awaited, List.tail_drop]
      rfl
    rw [List.map_cons, JudgesAll, ih (v := w) small, Judges, judgesBody_iff small, next]
    constructor
    · rintro ⟨⟨index, others, first, valid⟩, served, later, rest, all⟩
      rw [first, List.tail_cons] at rest
      exact ⟨index :: served, later, by rw [first, rest]; rfl, .cons valid all⟩
    · rintro ⟨_, later, rest, _ | ⟨valid, all⟩⟩
      rename_i index served
      exact ⟨⟨index, served ++ later, rest, valid⟩, served, later, by rw [rest]; rfl, all⟩

theorem receiveAll_code_bodiesSeen {bs : List Tree.Body} :
    (v.receiveAll (bs.map fun b => .expr (.code b.locals) b.instructions.toList)).bodiesSeen =
      v.bodiesSeen + bs.length := by
  induction bs generalizing v with
  | nil => rfl
  | cons b bs ih =>
    rw [List.map_cons, List.length_cons, Nat.add_comm bs.length, ← Nat.add_assoc]
    exact ih (v := v.receive (.expr (.code b.locals) b.instructions.toList))

end Validator

namespace Tree

open Validator

variable {t : Tree}

theorem sameConstants_global (t : Tree) : SameConstants (t.stateAt .global).space t.space := by
  rw [stateAt_global_space]
  refine ⟨rfl, rfl, rfl, Nat.le_refl _, fun n below => ?_⟩
  exact (Array.getElem?_append_left below).symm

theorem sameConstants_element (t : Tree) : SameConstants (t.stateAt .element).space t.space := by
  rw [stateAt_element_space]
  refine ⟨rfl, rfl, rfl, ?_, fun _ _ => rfl⟩
  simp [space]

/-- Functions have types once those of imports and definitions are in range. -/
theorem functionsTyped (imports : ∀ i ∈ t.imports, i.desc.Legal t.space)
    (functions : ∀ type ∈ t.functions, type.toNat < t.space.types.size) : FunctionsTyped t.space := by
  intro index member
  rcases Array.mem_append.mp member with imported | defined
  · obtain ⟨⟨_, _, desc⟩, here, same⟩ := Array.mem_filterMap.mp imported
    have legal := imports _ here
    cases desc with
    | function type =>
      cases same
      exact legal
    | _ => cases same
  · exact functions index defined

theorem awaited_code (t : Tree) : (t.stateAt .code).awaited = t.functions.toList := by
  have none : (t.stateAt .code).bodiesSeen = 0 := stateAt_of_frame t (·.bodiesSeen) receive_bodiesSeen (Nat.le_refl _)
  rw [awaited, nextBody, none, stateAt_code_space, Nat.add_zero, space, Array.toList_append]
  exact List.drop_left' Array.length_toList

theorem bodiesSeen_finish (t : Tree) : (t.stateAt .finish).bodiesSeen = t.code.size := by
  have none : (t.stateAt .code).bodiesSeen = 0 := stateAt_of_frame t (·.bodiesSeen) receive_bodiesSeen (Nat.le_refl _)
  have data : ∀ x ∈ t.part .data, x.section? ≠ some .code := by
    intro x member
    rcases section_of_mem_part member with here | here <;> simp [here]
  rw [stateAt_succ t (s := .data) rfl rfl, receiveAll_of_frame (·.bodiesSeen) receive_bodiesSeen _ data,
    stateAt_succ t (s := .code) rfl rfl, part, receiveAll_code_bodiesSeen, none]
  simp

theorem dataSeen_finish (t : Tree) : (t.stateAt .finish).dataSeen = t.data.size := by
  have none : (t.stateAt .data).dataSeen = 0 := stateAt_of_frame t (·.dataSeen) receive_dataSeen (Nat.le_refl _)
  rw [stateAt_succ t (s := .data) rfl rfl, part, receiveAll_datas_dataSeen, none]
  simp

theorem definedFunctions_space (t : Tree) : t.space.definedFunctions = t.functions.size := by
  simp [IndexSpace.definedFunctions, space]

/-! ## Sections against the whole module -/

/-- The offset of a data segment, being a number, mentions no function. -/
theorem mentions_of_constant {C : IndexSpace} {body : List Instruction} (constant : IsConstantExpr C body .i32) :
    body.flatMap Instruction.mentions = [] := by
  obtain ⟨op, rfl, constant⟩ := constant
  cases constant <;> rfl

theorem Data.mentions_of_valid {C : IndexSpace} {d : Data} (valid : d.Valid C) : d.mentions = [] := by
  unfold mentions
  cases mode : d.segment.mode with
  | passive => rfl
  | active memory => exact mentions_of_constant (valid memory mode).2

theorem judges_header (t : Tree) : (t.stateAt .header).JudgesAll (t.part .header) :=
  ⟨trivial, (judgesAll_map_iff fun _ _ _ => Iff.rfl).mpr fun _ _ => trivial⟩

/-- Imports and definitions share the room for memories. -/
theorem judges_imports_and_memories_iff (t : Tree) :
    (t.stateAt .imports).JudgesAll (t.part .imports) ∧ (t.stateAt .memory).JudgesAll (t.part .memory) ↔
      (∀ i ∈ t.imports, i.desc.Legal t.space) ∧ (∀ l ∈ t.memories, l.LegalMemory) ∧ t.space.memories.size ≤ 1 := by
  have types : (t.stateAt .imports).space.types = t.space.types := by rw [stateAt_imports_space]
  have none : (t.stateAt .imports).space.memories = #[] := by rw [stateAt_imports_space]
  have size : t.space.memories.size = (t.imports.filterMap (·.desc.memory?)).size + t.memories.size :=
    Array.size_append
  have imported : (t.imports.toList.filterMap (·.desc.memory?)).length = (t.imports.filterMap (·.desc.memory?)).size := by
    rw [← Array.toList_filterMap, Array.length_toList]
  rw [part, part, judges_imports_iff types, judges_memories_iff, stateAt_memory_memories, none, size, imported]
  simp only [Array.mem_toList_iff, Array.length_toList, Array.size_empty]
  constructor
  · rintro ⟨⟨imports, few⟩, memories, room⟩
    exact ⟨imports, memories, by omega⟩
  · rintro ⟨imports, memories, room⟩
    exact ⟨⟨imports, by omega⟩, memories, by omega⟩

theorem judges_code_and_finish_iff (t : Tree) (small : t.space.functions.size ≤ 2 ^ 32)
    (data : ∀ d ∈ t.data, d.Valid t.space) :
    (t.stateAt .code).JudgesAll (t.part .code) ∧ (t.stateAt .finish).JudgesAll (t.part .finish) ↔
      List.Forall₂ (fun index body => ∃ type, t.space.types[UInt32.toNat index]? = some type ∧
        body.Valid t.space t.declared type) t.functions.toList t.code.toList ∧
      ∀ count ∈ t.dataCount, count.toNat = t.data.size := by
  have silent : t.data.toList.flatMap Data.mentions = [] := by
    rw [List.flatMap_eq_nil_iff]
    exact fun d member => Data.mentions_of_valid (data d (Array.mem_toList_iff.mp member))
  have finish : (t.stateAt .finish).JudgesAll (t.part .finish) ↔
      t.code.size = t.functions.size ∧ ∀ count ∈ t.dataCount, count.toNat = t.data.size := by
    simp only [part, JudgesAll, Judges, bodiesSeen_finish, dataSeen_finish, stateAt_finish_space,
      definedFunctions_space, and_true]
    rfl
  rw [finish, part, judges_code_iff (by rwa [stateAt_code_space]), awaited_code, stateAt_code_space,
    stateAt_code_refs t silent]
  constructor
  · rintro ⟨⟨served, later, all, valid⟩, counts, segments⟩
    -- as many bodies as functions: none is left waiting
    have length := valid.length_eq
    have total := congrArg List.length all
    simp only [List.length_append, Array.length_toList] at length total
    obtain rfl : later = [] := List.length_eq_zero_iff.mp (by omega)
    rw [List.append_nil] at all
    exact ⟨all ▸ valid, segments⟩
  · rintro ⟨valid, segments⟩
    have length := valid.length_eq
    simp only [Array.length_toList] at length
    exact ⟨⟨_, [], (List.append_nil _).symm, valid⟩, length.symm, segments⟩

/-- What the validator asks as the sections go by is what validity asks of the module as a whole. -/
theorem judgesAll_items_iff_valid (t : Tree) (small : t.space.functions.size ≤ 2 ^ 32) :
    ({} : Validator).JudgesAll t.items ↔ t.Valid := by
  have target : (t.stateAt .exports).space.HasTarget = t.space.HasTarget := by rw [stateAt_exports_space]; rfl
  have unnamed : (t.stateAt .exports).exportNames = {} :=
    stateAt_of_frame t (·.exportNames) receive_exportNames (Nat.le_refl _)
  have unstarted : (t.stateAt .start).startSeen = false :=
    stateAt_of_frame t (·.startSeen) receive_startSeen (Nat.le_refl _)
  have start : (t.stateAt .start).space.HasFunction = t.space.HasFunction := by rw [stateAt_start_space]; rfl
  have tables : (t.stateAt .element).space.tables = t.space.tables := by rw [stateAt_element_space]
  have uncounted : (t.stateAt .dataCount).space.dataCount = none := by rw [stateAt_dataCount_space]
  rw [judgesAll_items_iff]
  constructor
  · intro each
    obtain ⟨imports, memories, oneMemory⟩ := (judges_imports_and_memories_iff t).mp ⟨each .imports, each .memory⟩
    have functions := judges_functions_iff.mp (each .function)
    rw [stateAt_function_types] at functions
    simp only [Array.mem_toList_iff] at functions
    have typed := functionsTyped imports functions
    obtain ⟨exportNames, -, exports⟩ := judges_exports_iff.mp (each .exports)
    have data := judges_datas_iff.mp (each .data)
    rw [stateAt_data_space] at data
    simp only [Array.mem_toList_iff] at data
    obtain ⟨code, dataCount⟩ := (judges_code_and_finish_iff t small data).mp ⟨each .code, each .finish⟩
    exact {
      types := by simpa using judges_types_iff.mp (each .type)
      tables := by simpa using judges_tables_iff.mp (each .table)
      globals := by simpa using (judges_globals_iff (sameConstants_global t)).mp (each .global)
      exports := by simpa [target, typed.hasTarget_iff] using exports
      start := start ▸ (judges_start_iff unstarted).mp (each .start)
      elements := by simpa using (judges_elements_iff (sameConstants_element t) tables typed).mp (each .element)
      imports, functions, memories, oneMemory, exportNames, code, data, dataCount }
  · intro valid s
    have typed := functionsTyped valid.imports valid.functions
    obtain ⟨imports, memories⟩ :=
      (judges_imports_and_memories_iff t).mpr ⟨valid.imports, valid.memories, valid.oneMemory⟩
    obtain ⟨code, finish⟩ := (judges_code_and_finish_iff t small valid.data).mpr ⟨valid.code, valid.dataCount⟩
    cases s with
    | header => exact judges_header t
    | type => exact judges_types_iff.mpr (by simpa using valid.types)
    | imports => exact imports
    | function => exact judges_functions_iff.mpr (by simpa [stateAt_function_types] using valid.functions)
    | table => exact judges_tables_iff.mpr (by simpa using valid.tables)
    | memory => exact memories
    | global => exact (judges_globals_iff (sameConstants_global t)).mpr (by simpa using valid.globals)
    | exports =>
      refine judges_exports_iff.mpr ⟨valid.exportNames, ?_, ?_⟩
      · simp [unnamed]
      · simpa [target, typed.hasTarget_iff] using valid.exports
    | start => exact (judges_start_iff unstarted).mpr (start ▸ valid.start)
    | element =>
      exact (judges_elements_iff (sameConstants_element t) tables typed).mpr (by simpa using valid.elements)
    | dataCount => exact judges_dataCount uncounted
    | code => exact code
    | data => exact judges_datas_iff.mpr (by simpa [stateAt_data_space] using valid.data)
    | finish => exact finish

theorem receiveAll_items_space (t : Tree) : (({} : Validator).receiveAll t.items).space = t.space := by
  rw [items_eq_parts, receiveAll_append, receiveAll_space, add_part_of_inert _ _ (by decide)]
  exact stateAt_finish_space t

theorem receiveAll_items_refs (t : Tree) : (({} : Validator).receiveAll t.items).refs = t.declared := by
  rw [items_eq_parts, receiveAll_refs, declared, mentions]
  simp [Section.inOrder, part_mentions_of_silent, part_mentions_global, part_mentions_exports,
    part_mentions_element, part_mentions_data]

theorem replay_ok_iff (t : Tree) {v : Validator} :
    t.replay Validator.consumer {} = .ok () v ↔
      ({} : Validator).JudgesAll t.items ∧
        v = (({} : Validator).receiveAll t.items).moveTo (lastSection t.items .header) := by
  rw [replay, items_ok_iff]
  exact and_iff_right (ordered_items t)

/-- The validator, which judges a module as it goes by, accepts exactly the modules that are valid as a whole, and
what it has built in the end are the index spaces and the references of the whole. -/
theorem replay_accepts_iff_valid (t : Tree) (small : t.space.functions.size ≤ 2 ^ 32) :
    ((∃ v, t.replay Validator.consumer {} = .ok () v) ↔ t.Valid) ∧
      ∀ v, t.replay Validator.consumer {} = .ok () v → v.space = t.space ∧ v.refs = t.declared := by
  simp only [replay_ok_iff, exists_and_left, exists_eq, and_true, judgesAll_items_iff_valid t small, true_and]
  rintro v ⟨_, last⟩
  rw [last, moveTo_space, moveTo_refs, receiveAll_items_space, receiveAll_items_refs]
  exact ⟨rfl, rfl⟩

/-- A module with an exported function that is put into a table and reads its result from memory. -/
def answering : Tree where
  version := 1
  types := #[⟨[], [0x7f]⟩]
  functions := #[0]
  tables := #[⟨0x70, ⟨1, none⟩⟩]
  memories := #[⟨1, some 2⟩]
  exports := #[⟨"answer", 0x00, 0⟩]
  elements := #[{ segment := ⟨0x70, .active 0, .functions [0]⟩, offset := #[.plain (.i32Const 0), .end_] }]
  code := #[{ locals := [], instructions := #[.plain (.i32Const 4), .plain (.load (.whole .i32) ⟨2, 0⟩), .end_] }]
  data := #[{ segment := ⟨.active 0, [0x2a]⟩, offset := #[.plain (.i32Const 4), .end_] }]

theorem valid_answering : answering.Valid where
  types d member := by
    obtain rfl := Array.mem_singleton.mp member
    exact List.forall_mem_singleton.mpr rfl
  imports := nofun
  functions type member := by
    obtain rfl := Array.mem_singleton.mp member
    decide
  tables d member := by
    obtain rfl := Array.mem_singleton.mp member
    exact ⟨rfl, by decide, nofun⟩
  memories l member := by
    obtain rfl := Array.mem_singleton.mp member
    refine ⟨by decide, ?_⟩
    rintro _ ⟨⟩
    decide
  oneMemory := by decide
  globals := nofun
  exportNames := by decide
  exports e member := by
    obtain rfl := Array.mem_singleton.mp member
    exact .inl ⟨rfl, by decide⟩
  start := nofun
  elements e member := by
    obtain rfl := Array.mem_singleton.mp member
    refine ⟨.func, rfl, ?_, ?_, nofun⟩
    · rintro _ ⟨⟩
      exact ⟨⟨_, rfl⟩, _, rfl, .i32Const _⟩
    · rintro _ ⟨⟩
      exact ⟨rfl, List.forall_mem_singleton.mpr (by decide), rfl⟩
  code := .cons ⟨⟨[], [.i32]⟩, rfl, [], .nil, .inl rfl, _, rfl⟩ .nil
  data d member := by
    obtain rfl := Array.mem_singleton.mp member
    rintro _ ⟨⟩
    exact ⟨by decide, _, rfl, .i32Const _⟩
  dataCount := nofun

theorem replay_accepts_answering :
    answering.space.functions.size ≤ 2 ^ 32 ∧ answering.Valid ∧ ∃ v, answering.replay Validator.consumer {} = .ok () v :=
  ⟨by decide, valid_answering, (replay_accepts_iff_valid answering (by decide)).1.mpr valid_answering⟩

end Tree

end Wasm
