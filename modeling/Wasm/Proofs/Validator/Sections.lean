import Wasm.Proofs.Validator.Runs

/-! # A tree section by section

The items of a tree are those of its sections, in order of rank. The index spaces that the validator has built when a
section begins are the final ones but for what later sections add.
-/

namespace Wasm

namespace Tree

/-- The items of a section; custom sections are counted to the header. -/
def part (t : Tree) : Section → List Item
  | .header => .entry (.header t.version) ::
      t.customs.toList.map fun (name, payload) => .entry (.custom name payload)
  | .type => t.types.toList.map fun d => .entry (.type d)
  | .imports => t.imports.toList.map fun i => .entry (.imported i)
  | .function => t.functions.toList.map fun type => .entry (.function type)
  | .table => t.tables.toList.map fun d => .entry (.table d)
  | .memory => t.memories.toList.map fun l => .entry (.memory l)
  | .global => t.globals.toList.map fun g => .expr (.global g.decl) g.init.toList
  | .exports => t.exports.toList.map fun e => .entry (.exported e)
  | .start => t.start.toList.map fun func => .entry (.start func)
  | .element => t.elements.toList.flatMap Element.stream
  | .dataCount => t.dataCount.toList.map fun count => .entry (.dataCount count)
  | .code => t.code.toList.map fun b => .expr (.code b.locals) b.instructions.toList
  | .data => t.data.toList.flatMap Data.stream
  | .finish => [.entry .finish]

theorem items_eq_parts (t : Tree) : t.items = Section.inOrder.flatMap t.part ++ t.part .finish := by
  simp [items, Section.inOrder, part]

/-- Items are in the part of their section. -/
theorem section_of_mem_part {t : Tree} {s : Section} {x : Item} (member : x ∈ t.part s) :
    x.section? = some s ∨ x.section? = none := by
  cases s with
  | header =>
    simp only [part, List.mem_cons, List.mem_map] at member
    rcases member with rfl | ⟨_, _, rfl⟩
    · exact .inl rfl
    · exact .inr rfl
  | element =>
    simp only [part, List.mem_flatMap, Element.stream, List.mem_cons, List.mem_append, List.mem_map,
      List.mem_ite_nil_right] at member
    rcases member with ⟨_, _, (rfl | ⟨_, rfl | ⟨⟨⟩⟩⟩) | ⟨_, _, rfl⟩⟩ <;> exact .inl rfl
  | data =>
    simp only [part, List.mem_flatMap, Data.stream, List.mem_cons, List.mem_ite_nil_right] at member
    rcases member with ⟨_, _, rfl | ⟨_, rfl | ⟨⟨⟩⟩⟩⟩ <;> exact .inl rfl
  | finish =>
    obtain rfl := List.mem_singleton.mp member
    exact .inl rfl
  | _ =>
    simp only [part, List.mem_map] at member
    obtain ⟨_, _, rfl⟩ := member
    exact .inl rfl

/-! ## The order of sections -/

theorem ordered_append {xs ys : List Item} {p : Section} :
    Ordered (xs ++ ys) p ↔ Ordered xs p ∧ Ordered ys (lastSection xs p) := by
  induction xs generalizing p with
  | nil => simp [Ordered, lastSection]
  | cons x xs ih =>
    simp only [List.cons_append, Ordered, ih, and_assoc]
    rfl

/-- Items of one section come in order and leave the position there, or where it was. -/
theorem ordered_section {s p : Section} {xs : List Item} (members : ∀ x ∈ xs, x.section? = some s ∨ x.section? = none)
    (notEnd : s ≠ .finish) (started : p ≠ .finish) (le : p.rank ≤ s.rank) :
    Ordered xs p ∧ lastSection xs p ≠ .finish ∧ (lastSection xs p).rank ≤ s.rank := by
  induction xs generalizing p with
  | nil => exact ⟨trivial, started, le⟩
  | cons x xs ih =>
    obtain ⟨here, others⟩ := List.forall_mem_cons.mp members
    rcases here with here | here
    · obtain ⟨ordered, last⟩ := ih others notEnd (Nat.le_refl _)
      have first : ∀ r ∈ x.section?, p.rank ≤ r.rank := by simpa [here] using le
      simp only [Ordered, lastSection, List.foldl_cons, here, Option.getD_some]
      exact ⟨⟨⟨started, by simpa [here] using first⟩, ordered⟩, last⟩
    · obtain ⟨ordered, last⟩ := ih others started le
      simp only [Ordered, lastSection, List.foldl_cons, here, Option.getD_none]
      exact ⟨⟨⟨started, by simp⟩, ordered⟩, last⟩

theorem ordered_parts (t : Tree) (ss : List Section) {p : Section} (sorted : ss.Pairwise fun a b => a.rank ≤ b.rank)
    (open_ : .finish ∉ ss) (started : p ≠ .finish) (le : ∀ s ∈ ss, p.rank ≤ s.rank) :
    Ordered (ss.flatMap t.part) p ∧ lastSection (ss.flatMap t.part) p ≠ .finish := by
  induction ss generalizing p with
  | nil => exact ⟨trivial, started⟩
  | cons s ss ih =>
    obtain ⟨least, sorted⟩ := List.pairwise_cons.mp sorted
    rw [List.mem_cons, not_or] at open_
    rw [List.forall_mem_cons] at le
    obtain ⟨ordered, last, reached⟩ :=
      ordered_section (fun _ => section_of_mem_part (t := t)) (Ne.symm open_.1) started le.1
    obtain ⟨rest, ended⟩ := ih sorted open_.2 last fun r member => Nat.le_trans reached (least r member)
    rw [List.flatMap_cons]
    refine ⟨ordered_append.mpr ⟨ordered, rest⟩, ?_⟩
    rwa [lastSection, List.foldl_append]

/-- The items of a tree always come in order. -/
theorem ordered_items (t : Tree) : Ordered t.items .header := by
  rw [items_eq_parts, ordered_append]
  obtain ⟨ordered, last⟩ :=
    ordered_parts t Section.inOrder (p := .header) (by decide) (by decide) (by decide) (by decide)
  refine ⟨ordered, ⟨last, ?_⟩, trivial⟩
  generalize lastSection _ _ = q
  cases q <;> decide

/-! ## States at the beginning of sections -/

/-- The state in which a section begins, but for the position. -/
def stateAt (t : Tree) (s : Section) : Validator :=
  ({} : Validator).receiveAll ((Section.inOrder.take s.rank).flatMap t.part)

/-- Items that come in parts are judged part by part. -/
theorem judgesAll_flatMap_iff {α : Type} {f : α → List Item} {v : Validator} {as : List α} :
    v.JudgesAll (as.flatMap f) ↔
      ∀ n a, as[n]? = some a → (v.receiveAll ((as.take n).flatMap f)).JudgesAll (f a) := by
  induction as generalizing v with
  | nil => simp [Validator.JudgesAll]
  | cons b bs ih =>
    rw [List.flatMap_cons, Validator.judgesAll_append, ih]
    constructor
    · rintro ⟨first, others⟩ (_ | n) a here
      · cases here
        exact first
      · rw [List.take_succ_cons, List.flatMap_cons, Validator.receiveAll_append]
        exact others n a here
    · intro each
      refine ⟨each 0 b rfl, fun n a here => ?_⟩
      have later := each (n + 1) a here
      rwa [List.take_succ_cons, List.flatMap_cons, Validator.receiveAll_append] at later

/-- The items of a tree are judged section by section. -/
theorem judgesAll_items_iff (t : Tree) :
    ({} : Validator).JudgesAll t.items ↔ ∀ s, (t.stateAt s).JudgesAll (t.part s) := by
  rw [items_eq_parts, Validator.judgesAll_append, judgesAll_flatMap_iff]
  constructor
  · rintro ⟨each, ended⟩ s
    by_cases last : s = .finish
    · exact last ▸ ended
    · exact each s.rank s (Section.inOrder_rank last)
  · intro each
    refine ⟨fun n s here => ?_, each .finish⟩
    exact Section.rank_of_inOrder here ▸ each s

/-- Each section begins where the one before it ended. -/
theorem stateAt_succ (t : Tree) {s r : Section} (here : Section.inOrder[s.rank]? = some s) (next : r.rank = s.rank + 1) :
    t.stateAt r = (t.stateAt s).receiveAll (t.part s) := by
  unfold stateAt
  rw [← Validator.receiveAll_append, next, List.take_add_one, here]
  simp

/-- What no item of a list changes. -/
theorem receiveAll_of_frame {β : Type} (f : Validator → β) {r : Section}
    (frame : ∀ (v : Validator) (x : Item), x.section? ≠ some r → f (v.receive x) = f v) (v : Validator)
    {xs : List Item} (others : ∀ x ∈ xs, x.section? ≠ some r) : f (v.receiveAll xs) = f v := by
  induction xs generalizing v with
  | nil => rfl
  | cons x xs ih =>
    obtain ⟨here, others⟩ := List.forall_mem_cons.mp others
    exact (ih (v.receive x) others).trans (frame v x here)

/-! ## Index spaces at the beginning of sections -/

section Spaces

variable (t : Tree) (C : IndexSpace)

/-- A section of which each member adds at most one entry, to one of the spaces. -/
theorem foldl_stream {α β : Type} {f : α → Option β} (stream : α → List Item) (put : Array β → IndexSpace)
    (one : ∀ bs a, (stream a).foldl IndexSpace.add (put bs) = put ((f a).elim bs bs.push)) (as : Array α)
    (bs : Array β) :
    (as.toList.flatMap stream).foldl IndexSpace.add (put bs) = put (bs ++ as.filterMap f) := by
  obtain ⟨as⟩ := as
  induction as generalizing bs with
  | nil => simp
  | cons a as ih =>
    rw [List.flatMap_cons, List.foldl_append, one, ih]
    cases found : f a <;> simp [found]

theorem foldl_map {α β : Type} {f : α → Option β} (item : α → Item) (put : Array β → IndexSpace)
    (one : ∀ bs a, (put bs).add (item a) = put ((f a).elim bs bs.push)) (as : Array α) (bs : Array β) :
    (as.toList.map item).foldl IndexSpace.add (put bs) = put (bs ++ as.filterMap f) := by
  rw [List.map_eq_flatMap]
  exact foldl_stream (fun a => [item a]) put one as bs

theorem add_types : (t.part .type).foldl IndexSpace.add C = { C with types := C.types ++ t.space.types } := by
  refine foldl_map _ (fun types => { C with types }) (fun bs d => ?_) t.types C.types
  cases found : d.type? <;> simp [IndexSpace.add, IndexSpace.addType, found]

/-- What imports add to the index spaces. -/
theorem add_imports :
    (t.part .imports).foldl IndexSpace.add C =
      { C with
        functions := C.functions ++ t.imports.filterMap (·.desc.function?)
        importedFunctions := C.importedFunctions + (t.imports.filterMap (·.desc.function?)).size
        tables := C.tables ++ t.imports.filterMap (·.desc.table?)
        memories := C.memories ++ t.imports.filterMap (·.desc.memory?)
        globals := C.globals ++ t.imports.filterMap (·.desc.global?)
        importedGlobals := C.importedGlobals + (t.imports.filterMap (·.desc.global?)).size } := by
  simp only [part, List.foldl_map]
  obtain ⟨is⟩ := t.imports
  induction is generalizing C with
  | nil => simp
  | cons i is ih =>
    rw [List.foldl_cons, ih]
    obtain ⟨_, _, _ | d | _ | d⟩ := i
    · simp [IndexSpace.add, IndexSpace.addImport, IndexSpace.importFunction, ImportDesc.function?,
        ImportDesc.table?, ImportDesc.memory?, ImportDesc.global?]
      omega
    · cases found : d.type? <;>
        simp [IndexSpace.add, IndexSpace.addImport, IndexSpace.addTable, ImportDesc.function?,
          ImportDesc.table?, ImportDesc.memory?, ImportDesc.global?, found]
    · simp [IndexSpace.add, IndexSpace.addImport, IndexSpace.addMemory, ImportDesc.function?,
        ImportDesc.table?, ImportDesc.memory?, ImportDesc.global?]
    · cases found : d.type? <;>
        simp [IndexSpace.add, IndexSpace.addImport, IndexSpace.importGlobal, ImportDesc.function?,
          ImportDesc.table?, ImportDesc.memory?, ImportDesc.global?, found]
      omega

theorem add_functions :
    (t.part .function).foldl IndexSpace.add C = { C with functions := C.functions ++ t.functions } := by
  have all := foldl_map (f := some) (fun type => .entry (.function type))
    (fun functions => { C with functions }) (fun _ _ => rfl) t.functions C.functions
  rwa [Array.filterMap_some] at all

theorem add_tables :
    (t.part .table).foldl IndexSpace.add C =
      { C with tables := C.tables ++ t.tables.filterMap TableDecl.type? } := by
  refine foldl_map _ (fun tables => { C with tables }) (fun bs d => ?_) t.tables C.tables
  cases found : d.type? <;> simp [IndexSpace.add, IndexSpace.addTable, found]

theorem add_memories :
    (t.part .memory).foldl IndexSpace.add C = { C with memories := C.memories ++ t.memories } := by
  have all := foldl_map (f := some) (fun l => .entry (.memory l))
    (fun memories => { C with memories }) (fun _ _ => rfl) t.memories C.memories
  rwa [Array.filterMap_some] at all

theorem add_globals :
    (t.part .global).foldl IndexSpace.add C =
      { C with globals := C.globals ++ t.globals.filterMap (·.decl.type?) } := by
  refine foldl_map _ (fun globals => { C with globals }) (fun bs g => ?_) t.globals C.globals
  cases found : g.decl.type? <;> simp [IndexSpace.add, IndexSpace.addGlobal, found]

/-- Items of some sections add nothing. -/
theorem add_nothing {xs : List Item} (inert : ∀ x ∈ xs, ∀ C : IndexSpace, C.add x = C) :
    xs.foldl IndexSpace.add C = C := by
  induction xs with
  | nil => rfl
  | cons x xs ih =>
    obtain ⟨here, others⟩ := List.forall_mem_cons.mp inert
    rw [List.foldl_cons, here, ih others]

/-- Only items of some sections add to the index spaces. -/
theorem add_of_section {x : Item} {D : IndexSpace}
    (inert : x.section? ∉ [some .type, some .imports, some .function, some .table, some .memory, some .global,
      some .element, some .dataCount]) : D.add x = D := by
  rcases x with (_ | _ | _ | _ | _ | _ | _ | _ | _ | _ | _ | _ | _) | ⟨_ | _ | _ | _ | _, _⟩ <;>
    simp_all [Item.section?, IndexSpace.add]

/-- The offset and the items of a segment add nothing to what the segment adds. -/
theorem add_element_stream (e : Element) :
    e.stream.foldl IndexSpace.add C = (RefType.ofTag? e.segment.tag).elim C C.addElement := by
  rw [Element.stream, List.cons_append, List.foldl_cons, add_nothing]
  · rfl
  · intro x member D
    simp only [List.mem_append, List.mem_map, List.mem_ite_nil_right, List.mem_singleton] at member
    rcases member with ⟨_, rfl⟩ | ⟨_, _, rfl⟩ <;> rfl

theorem add_elements :
    (t.part .element).foldl IndexSpace.add C = { C with elements := C.elements ++ t.space.elements } := by
  refine foldl_stream Element.stream (fun elements => { C with elements }) (fun bs e => ?_) t.elements C.elements
  rw [add_element_stream]
  cases RefType.ofTag? e.segment.tag <;> rfl

theorem add_dataCount :
    (t.part .dataCount).foldl IndexSpace.add C = { C with dataCount := t.dataCount.or C.dataCount } := by
  unfold part
  cases t.dataCount <;> rfl

/-- Sections that declare nothing with an index of its own. -/
theorem add_part_of_inert {s : Section} (inert : s ∈ [.header, .exports, .start, .code, .data, .finish]) :
    (t.part s).foldl IndexSpace.add C = C := by
  refine add_nothing C fun x member D => add_of_section ?_
  rcases section_of_mem_part member with here | here
  · rw [here]
    simp only [List.mem_cons, List.not_mem_nil, or_false] at inert
    rcases inert with rfl | rfl | rfl | rfl | rfl | rfl <;> decide
  · rw [here]
    decide

theorem stateAt_imports_space : (t.stateAt .imports).space = { types := t.space.types } := by
  simp [stateAt, Validator.receiveAll_space, Section.inOrder, Section.rank, List.foldl_append, add_part_of_inert,
    add_types]

theorem stateAt_function_types : (t.stateAt .function).space.types = t.space.types := by
  simp [stateAt, Validator.receiveAll_space, Section.inOrder, Section.rank, List.foldl_append, add_part_of_inert,
    add_types, add_imports]

theorem stateAt_memory_memories :
    (t.stateAt .memory).space.memories = t.imports.filterMap (·.desc.memory?) := by
  simp [stateAt, Validator.receiveAll_space, Section.inOrder, Section.rank, List.foldl_append, add_part_of_inert,
    add_types, add_imports, add_functions, add_tables]

/-- When the initial values of globals are met, of all that they can name nothing is missing. -/
theorem stateAt_global_space :
    (t.stateAt .global).space =
      { t.space with globals := t.imports.filterMap (·.desc.global?), elements := #[], dataCount := none } := by
  simp [stateAt, Validator.receiveAll_space, Section.inOrder, Section.rank, List.foldl_append, add_part_of_inert,
    add_types, add_imports, add_functions, add_tables, add_memories, space]

/-- When exports are met, of all that they can name nothing is missing. -/
theorem stateAt_exports_space :
    (t.stateAt .exports).space = { t.space with elements := #[], dataCount := none } := by
  simp [stateAt, Validator.receiveAll_space, Section.inOrder, Section.rank, List.foldl_append, add_part_of_inert,
    add_types, add_imports, add_functions, add_tables, add_memories, add_globals, space]

theorem stateAt_start_space :
    (t.stateAt .start).space = { t.space with elements := #[], dataCount := none } := by
  rw [stateAt_succ t (s := .exports) rfl rfl, Validator.receiveAll_space, stateAt_exports_space,
    add_part_of_inert _ _ (by decide)]

theorem stateAt_element_space :
    (t.stateAt .element).space = { t.space with elements := #[], dataCount := none } := by
  rw [stateAt_succ t (s := .start) rfl rfl, Validator.receiveAll_space, stateAt_start_space,
    add_part_of_inert _ _ (by decide)]

theorem stateAt_dataCount_space : (t.stateAt .dataCount).space = { t.space with dataCount := none } := by
  rw [stateAt_succ t (s := .element) rfl rfl, Validator.receiveAll_space, stateAt_element_space, add_elements]
  simp

/-- When function bodies are met, the index spaces are complete. -/
theorem stateAt_code_space : (t.stateAt .code).space = t.space := by
  rw [stateAt_succ t (s := .dataCount) rfl rfl, Validator.receiveAll_space, stateAt_dataCount_space, add_dataCount]
  simp [space]

theorem stateAt_data_space : (t.stateAt .data).space = t.space := by
  rw [stateAt_succ t (s := .code) rfl rfl, Validator.receiveAll_space, stateAt_code_space,
    add_part_of_inert _ _ (by decide)]

theorem stateAt_finish_space : (t.stateAt .finish).space = t.space := by
  rw [stateAt_succ t (s := .data) rfl rfl, Validator.receiveAll_space, stateAt_data_space,
    add_part_of_inert _ _ (by decide)]

end Spaces

/-! ## What else is remembered -/

/-- Sections before another are of lower rank. -/
theorem rank_lt_of_mem_take {r : Section} {n : Nat} (member : r ∈ Section.inOrder.take n) : r.rank < n := by
  obtain ⟨i, here⟩ := List.mem_iff_getElem?.mp member
  rw [List.getElem?_take] at here
  split at here
  · rename_i below
    rwa [Section.rank_of_inOrder here]
  · cases here

/-- What only a later section changes is as it was at the start. -/
theorem stateAt_of_frame {β : Type} (t : Tree) (f : Validator → β) {s r : Section}
    (frame : ∀ (v : Validator) (x : Item), x.section? ≠ some r → f (v.receive x) = f v) (le : s.rank ≤ r.rank) :
    f (t.stateAt s) = f {} := by
  have others : ∀ x ∈ (Section.inOrder.take s.rank).flatMap t.part, x.section? ≠ some r := by
    intro x member
    obtain ⟨q, before, inside⟩ := List.mem_flatMap.mp member
    have lower := rank_lt_of_mem_take before
    rcases section_of_mem_part inside with here | here
    · rw [here]
      rintro ⟨⟩
      omega
    · rw [here]
      nofun
  unfold stateAt
  exact receiveAll_of_frame f frame {} others

theorem receive_exportNames (v : Validator) (x : Item) (other : x.section? ≠ some .exports) :
    (v.receive x).exportNames = v.exportNames := by
  rcases x with (_ | _ | _ | _ | _ | _ | _ | _ | _ | _ | _ | _ | _) | ⟨_ | _ | _ | _ | _, _⟩ <;>
    simp_all [Item.section?, Validator.receive]

theorem receive_startSeen (v : Validator) (x : Item) (other : x.section? ≠ some .start) :
    (v.receive x).startSeen = v.startSeen := by
  rcases x with (_ | _ | _ | _ | _ | _ | _ | _ | _ | _ | _ | _ | _) | ⟨_ | _ | _ | _ | _, _⟩ <;>
    simp_all [Item.section?, Validator.receive]

theorem receive_bodiesSeen (v : Validator) (x : Item) (other : x.section? ≠ some .code) :
    (v.receive x).bodiesSeen = v.bodiesSeen := by
  rcases x with (_ | _ | _ | _ | _ | _ | _ | _ | _ | _ | _ | _ | _) | ⟨_ | _ | _ | _ | _, _⟩ <;>
    simp_all [Item.section?, Validator.receive]

theorem receive_dataSeen (v : Validator) (x : Item) (other : x.section? ≠ some .data) :
    (v.receive x).dataSeen = v.dataSeen := by
  rcases x with (_ | _ | _ | _ | _ | _ | _ | _ | _ | _ | _ | _ | _) | ⟨_ | _ | _ | _ | _, _⟩ <;>
    simp_all [Item.section?, Validator.receive]

/-! ## References -/

theorem mentions_of_section {x : Item}
    (silent : x.section? ∉ [some .global, some .exports, some .element, some .data]) : x.mentions = [] := by
  rcases x with (_ | _ | _ | _ | _ | _ | _ | _ | _ | _ | _ | _ | _) | ⟨_ | _ | _ | _ | _, _⟩ <;>
    simp_all [Item.section?, Item.mentions]

theorem part_mentions_of_silent (t : Tree) {s : Section} (silent : s ∉ [.global, .exports, .element, .data]) :
    (t.part s).flatMap Item.mentions = [] := by
  rw [List.flatMap_eq_nil_iff]
  intro x member
  apply mentions_of_section
  rcases section_of_mem_part member with here | here
  · simpa [here] using silent
  · simp [here]

theorem part_mentions_global (t : Tree) :
    (t.part .global).flatMap Item.mentions = t.globals.toList.flatMap fun g => exprMentions g.init := by
  simp [part, List.flatMap_map, Item.mentions, exprMentions]

theorem part_mentions_exports (t : Tree) :
    (t.part .exports).flatMap Item.mentions = t.exports.toList.flatMap Export.mentions := by
  simp [part, List.flatMap_map, Item.mentions]

theorem part_mentions_element (t : Tree) :
    (t.part .element).flatMap Item.mentions = t.elements.toList.flatMap Element.mentions := by
  rw [part, List.flatMap_assoc]
  congr 1
  funext e
  have items : exprMentions = fun e => e.toList.flatMap Instruction.mentions := rfl
  unfold Element.stream Element.mentions
  cases e.segment.mode.isActive <;> simp [List.flatMap_map, Item.mentions, items]

theorem part_mentions_data (t : Tree) :
    (t.part .data).flatMap Item.mentions = t.data.toList.flatMap Data.mentions := by
  rw [part, List.flatMap_assoc]
  congr 1
  funext d
  unfold Data.stream Data.mentions
  cases d.segment.mode.isActive <;> simp [Item.mentions, exprMentions]

/-- When function bodies are met, all that is missing of the declared references is what data segments mention. -/
theorem stateAt_code_refs (t : Tree) (silent : t.data.toList.flatMap Data.mentions = []) :
    (t.stateAt .code).refs = t.declared := by
  rw [stateAt, Validator.receiveAll_refs, declared, mentions, silent, List.append_nil]
  simp [Section.inOrder, Section.rank, part_mentions_of_silent, part_mentions_global, part_mentions_exports,
    part_mentions_element]

end Tree

end Wasm
