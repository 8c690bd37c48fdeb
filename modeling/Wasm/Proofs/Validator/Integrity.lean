import Wasm.Proofs.Validator.Succession

/-! # Integrity of the index spaces

However events come and whatever becomes of them, the index spaces hold nothing but legal entries, imports before
definitions, and what the rest of the state says of functions is about functions that exist. The order of sections is
what keeps imports first.
-/

namespace Wasm

open Outcome

namespace Event

/-- The type of the function that is imported. -/
def importedFunction? : Event → Option UInt32
  | .entry (.imported i) => i.desc.function?
  | _ => none

/-- The type of the function that is declared. -/
def declaredFunction? : Event → Option UInt32
  | .entry (.function type) => some type
  | _ => none

def importedGlobal? : Event → Option GlobalType
  | .entry (.imported i) => i.desc.global?
  | _ => none

def declaredGlobal? : Event → Option GlobalType
  | .site (.global d) => d.type?
  | _ => none

end Event

open Event

/-! ## Legal entries -/

/-- Index spaces that hold nothing but legal entries. -/
structure IndexSpace.Sound (C : IndexSpace) : Prop where
  typed : ∀ type ∈ C.functions, type.toNat < C.types.size
  memory : C.memories.size ≤ 1
  tables : ∀ t ∈ C.tables, t.limits.Within (2 ^ 32 - 1)
  memories : ∀ l ∈ C.memories, l.Within 65536

namespace IndexSpace.Sound

variable {C : IndexSpace}

theorem addType (sound : C.Sound) (t : FuncType) : (C.addType t).Sound where
  typed index member := by
    have known := sound.typed index member
    simp only [IndexSpace.addType, Array.size_push]
    omega
  memory := sound.memory
  tables := sound.tables
  memories := sound.memories

theorem addFunction (sound : C.Sound) {type : UInt32} (known : type.toNat < C.types.size) :
    (C.addFunction type).Sound where
  typed index member := by
    rcases Array.mem_push.mp member with member | rfl
    · exact sound.typed index member
    · exact known
  memory := sound.memory
  tables := sound.tables
  memories := sound.memories

theorem addTable (sound : C.Sound) {t : TableType} (within : t.limits.Within (2 ^ 32 - 1)) : (C.addTable t).Sound where
  typed := sound.typed
  memory := sound.memory
  tables other member := by
    rcases Array.mem_push.mp member with member | rfl
    · exact sound.tables other member
    · exact within
  memories := sound.memories

theorem addMemory (sound : C.Sound) {l : Limits} (within : l.Within 65536) (none : C.memories.size = 0) :
    (C.addMemory l).Sound where
  typed := sound.typed
  memory := by
    simp only [IndexSpace.addMemory, Array.size_push, none]
    omega
  tables := sound.tables
  memories other member := by
    rcases Array.mem_push.mp member with member | rfl
    · exact sound.memories other member
    · exact within

end IndexSpace.Sound

theorem TableDecl.Legal.sound {d : TableDecl} (legal : d.Legal) {C : IndexSpace} (sound : C.Sound) :
    (d.type?.elim C C.addTable).Sound := by
  unfold TableDecl.type?
  cases RefType.ofTag? d.tag with
  | none => exact sound
  | some element => exact sound.addTable legal.2

namespace Validator

variable {v v' : Validator} {told : List Event}

theorem sound_import (sound : v.space.Sound) {desc : ImportDesc} (judges : v.JudgesImport desc) :
    (v.space.addImport desc).Sound := by
  cases desc with
  | function type => exact { sound.addFunction judges with }
  | table d => exact judges.sound sound
  | memory l => exact sound.addMemory judges.1 judges.2
  | global d => exact IndexSpace.of_elim d.type? sound fun _ => { sound with }

theorem sound_entry (sound : v.space.Sound) {e : Entry} (judges : v.Judges (.entry e)) :
    (v.space.add (.entry e)).Sound := by
  cases e with
  | type d => exact IndexSpace.of_elim d.type? sound sound.addType
  | imported i => exact sound_import sound judges
  | function type => exact sound.addFunction judges
  | table d => exact judges.sound sound
  | memory l => exact sound.addMemory judges.1 judges.2
  | element s => exact IndexSpace.of_elim _ sound fun _ => { sound with }
  | dataCount count => exact { sound with }
  | header | custom | exported | start | data | finish => exact sound

theorem sound_site (sound : v.space.Sound) (x : Site) : (v.space.add (.expr x [])).Sound := by
  cases x with
  | global d => exact IndexSpace.of_elim d.type? sound fun _ => { sound with }
  | elementOffset | elementItem | code | dataOffset => exact sound

end Validator

/-! ## Imports before definitions -/

/-- Entries of which the first so many were imported and the others defined. -/
structure ImportsFirst {α : Type} (entries : Array α) (count : Nat) (imported defined : List α) : Prop where
  listed : entries.toList = imported ++ defined
  counted : count = imported.length

namespace ImportsFirst

variable {α : Type} {entries : Array α} {count : Nat}

theorem size_eq {imported defined : List α} (first : ImportsFirst entries count imported defined) :
    entries.size = count + defined.length := by
  rw [first.counted, ← Array.length_toList, first.listed, List.length_append]

variable {told : List Event} {imports? defines? : Event → Option α} {e : Event} {a : α}

theorem skip (first : ImportsFirst entries count (told.filterMap imports?) (told.filterMap defines?))
    (notImported : imports? e = none) (notDefined : defines? e = none) :
    ImportsFirst entries count ((told ++ [e]).filterMap imports?) ((told ++ [e]).filterMap defines?) := by
  simpa [notImported, notDefined] using first

/-- An import finds its place as long as nothing is defined. -/
theorem add_import (first : ImportsFirst entries count (told.filterMap imports?) (told.filterMap defines?))
    (early : told.filterMap defines? = []) (imported : imports? e = some a) (notDefined : defines? e = none) :
    ImportsFirst (entries.push a) (count + 1) ((told ++ [e]).filterMap imports?)
      ((told ++ [e]).filterMap defines?) where
  listed := by simp [first.listed, early, imported, notDefined]
  counted := by simp [first.counted, imported]

theorem add_definition (first : ImportsFirst entries count (told.filterMap imports?) (told.filterMap defines?))
    (notImported : imports? e = none) (defined : defines? e = some a) :
    ImportsFirst (entries.push a) count ((told ++ [e]).filterMap imports?) ((told ++ [e]).filterMap defines?) where
  listed := by simp [first.listed, notImported, defined]
  counted := by simp [first.counted, notImported]

end ImportsFirst

/-- Functions and globals are those that events imported and then those that they defined. -/
structure IndexSpace.Holds (C : IndexSpace) (told : List Event) : Prop where
  functions : ImportsFirst C.functions C.importedFunctions (told.filterMap importedFunction?)
    (told.filterMap declaredFunction?)
  globals : ImportsFirst C.globals C.importedGlobals (told.filterMap importedGlobal?) (told.filterMap declaredGlobal?)

namespace Validator

variable {v v' : Validator} {told : List Event}

/-- Before the imports end nothing is defined. -/
theorem filterMap_of_imports {α : Type} (tracks : Tracks v told) (early : v.position.rank ≤ Section.imports.rank)
    {f : Event → Option α} (late : ∀ e a, f e = some a → ∃ s, e.section? = some s ∧ Section.imports.rank < s.rank) :
    told.filterMap f = [] := by
  rw [List.filterMap_eq_nil_iff]
  intro e member
  cases found : f e with
  | none => rfl
  | some a =>
    obtain ⟨s, inside, later⟩ := late e a found
    have reached := tracks.reached s (List.mem_filterMap.mpr ⟨e, member, inside⟩)
    omega

theorem declaredFunction_late (e : Event) (type : UInt32) (found : e.declaredFunction? = some type) :
    ∃ s, e.section? = some s ∧ Section.imports.rank < s.rank := by
  rcases e with (_ | _ | _ | _ | _ | _ | _ | _ | _ | _ | _ | _ | _) | _ | _ | _ <;> cases found
  exact ⟨.function, rfl, by decide⟩

theorem declaredGlobal_late (e : Event) (type : GlobalType) (found : e.declaredGlobal? = some type) :
    ∃ s, e.section? = some s ∧ Section.imports.rank < s.rank := by
  rcases e with _ | (_ | _ | _ | _ | _) | _ | _
  case site.global d => exact ⟨.global, rfl, by decide⟩
  all_goals cases found

theorem holds_entry {e : Entry} (tracks : Tracks v told) (holds : v.space.Holds told)
    (follows : v.Follows (Item.entry e).section?) : (v.space.add (.entry e)).Holds (told ++ [.entry e]) := by
  cases e with
  | imported i =>
    obtain ⟨source, name, desc⟩ := i
    have early : v.position.rank ≤ Section.imports.rank := follows.2 _ rfl
    have noFunction := filterMap_of_imports tracks early declaredFunction_late
    have noGlobal := filterMap_of_imports tracks early declaredGlobal_late
    cases desc with
    | function type => exact ⟨holds.functions.add_import noFunction rfl rfl, holds.globals.skip rfl rfl⟩
    | table d =>
      have skipped : v.space.Holds (told ++ [.entry (.imported ⟨source, name, .table d⟩)]) :=
        ⟨holds.functions.skip rfl rfl, holds.globals.skip rfl rfl⟩
      exact IndexSpace.of_elim (P := (·.Holds _)) d.type? skipped fun _ => { skipped with }
    | memory l => exact ⟨holds.functions.skip rfl rfl, holds.globals.skip rfl rfl⟩
    | global d =>
      show (d.type?.elim v.space v.space.importGlobal).Holds _
      cases known : d.type? with
      | none => exact ⟨holds.functions.skip rfl rfl, holds.globals.skip known rfl⟩
      | some t => exact ⟨holds.functions.skip rfl rfl, holds.globals.add_import noGlobal known rfl⟩
  | function type => exact ⟨holds.functions.add_definition rfl rfl, holds.globals.skip rfl rfl⟩
  | type d =>
    have skipped : v.space.Holds (told ++ [.entry (.type d)]) :=
      ⟨holds.functions.skip rfl rfl, holds.globals.skip rfl rfl⟩
    exact IndexSpace.of_elim (P := (·.Holds _)) d.type? skipped fun _ => { skipped with }
  | table d =>
    have skipped : v.space.Holds (told ++ [.entry (.table d)]) :=
      ⟨holds.functions.skip rfl rfl, holds.globals.skip rfl rfl⟩
    exact IndexSpace.of_elim (P := (·.Holds _)) d.type? skipped fun _ => { skipped with }
  | element s =>
    have skipped : v.space.Holds (told ++ [.entry (.element s)]) :=
      ⟨holds.functions.skip rfl rfl, holds.globals.skip rfl rfl⟩
    exact IndexSpace.of_elim (P := (·.Holds _)) _ skipped fun _ => { skipped with }
  | header | custom | memory | exported | start | dataCount | data | finish =>
    exact ⟨holds.functions.skip rfl rfl, holds.globals.skip rfl rfl⟩

theorem holds_site {x : Site} (holds : v.space.Holds told) :
    (v.space.add (.expr x [])).Holds (told ++ [.site x]) := by
  cases x with
  | global d =>
    show (d.type?.elim v.space v.space.addGlobal).Holds _
    cases known : d.type? with
    | none => exact ⟨holds.functions.skip rfl rfl, holds.globals.skip rfl known⟩
    | some t => exact ⟨holds.functions.skip rfl rfl, holds.globals.add_definition rfl known⟩
  | elementOffset | elementItem | code | dataOffset =>
    exact ⟨holds.functions.skip rfl rfl, holds.globals.skip rfl rfl⟩

theorem holds_inside {C : IndexSpace} {e : Event} (holds : C.Holds told) (inside : e.IsInside) :
    C.Holds (told ++ [e]) := by
  cases e with
  | entry | site => exact inside.elim
  | instruction | exprEnd => exact ⟨holds.functions.skip rfl rfl, holds.globals.skip rfl rfl⟩

end Validator

/-! ## How much there is -/

/-- How many entries all index spaces have. -/
def IndexSpace.entries (C : IndexSpace) : Nat :=
  C.types.size + C.functions.size + C.tables.size + C.memories.size + C.globals.size + C.elements.size

namespace IndexSpace

variable (C : IndexSpace)

theorem entries_addType (t : FuncType) : (C.addType t).entries = C.entries + 1 := by
  simp only [entries, addType, Array.size_push]
  omega

theorem entries_addFunction (type : UInt32) : (C.addFunction type).entries = C.entries + 1 := by
  simp only [entries, addFunction, Array.size_push]
  omega

theorem entries_importFunction (type : UInt32) : (C.importFunction type).entries = C.entries + 1 := by
  simp only [entries, importFunction, Array.size_push]
  omega

theorem entries_addTable (t : TableType) : (C.addTable t).entries = C.entries + 1 := by
  simp only [entries, addTable, Array.size_push]
  omega

theorem entries_addMemory (l : Limits) : (C.addMemory l).entries = C.entries + 1 := by
  simp only [entries, addMemory, Array.size_push]
  omega

theorem entries_addGlobal (t : GlobalType) : (C.addGlobal t).entries = C.entries + 1 := by
  simp only [entries, addGlobal, Array.size_push]
  omega

theorem entries_importGlobal (t : GlobalType) : (C.importGlobal t).entries = C.entries + 1 := by
  simp only [entries, importGlobal, Array.size_push]
  omega

theorem entries_addElement (t : RefType) : (C.addElement t).entries = C.entries + 1 := by
  simp only [entries, addElement, Array.size_push]
  omega

/-- An item of a section adds one entry at most, and others none. -/
theorem entries_add (x : Item) : (C.add x).entries ≤ C.entries + x.section?.toList.length := by
  have grown {α : Type} (type : Option α) {f : α → IndexSpace} (one : ∀ a, (f a).entries = C.entries + 1) :
      (type.elim C f).entries ≤ C.entries + 1 :=
    of_elim (P := fun D => D.entries ≤ C.entries + 1) type (Nat.le_succ _) fun a => (one a).le
  cases x with
  | entry e =>
    cases e with
    | type d => exact grown d.type? C.entries_addType
    | imported i =>
      show (C.addImport i.desc).entries ≤ C.entries + 1
      cases i.desc with
      | function type => exact (C.entries_importFunction type).le
      | table d => exact grown d.type? C.entries_addTable
      | memory l => exact (C.entries_addMemory l).le
      | global d => exact grown d.type? C.entries_importGlobal
    | function type => exact (C.entries_addFunction type).le
    | table d => exact grown d.type? C.entries_addTable
    | memory l => exact (C.entries_addMemory l).le
    | element s => exact grown _ C.entries_addElement
    | header | custom | exported | start | dataCount | data | finish => exact Nat.le_add_right ..
  | expr x body =>
    cases x with
    | global d => exact grown d.type? C.entries_addGlobal
    | elementOffset | elementItem | code | dataOffset => exact Nat.le_add_right ..

end IndexSpace

namespace Validator

variable {v v' : Validator} {told : List Event}

/-- What the index spaces and the rest of the state have to do with one another and with the accepted events. -/
structure Integral (v : Validator) (told : List Event) : Prop where
  sound : v.space.Sound
  holds : v.space.Holds told
  bodies : v.bodiesSeen ≤ v.space.definedFunctions
  refs : ∀ func ∈ v.refs, func.toNat < v.space.functions.size
  scope : ∀ o ∈ v.expr, o.scope.space.functions.size ≤ v.space.functions.size
  entries : v.space.entries ≤ (told.filterMap section?).length
  segments : v.dataSeen ≤ (told.filterMap section?).length

theorem lt_of_hasFunction {C : IndexSpace} {func : UInt32} (known : ∃ type, C.HasFunction func type) :
    func.toNat < C.functions.size := by
  obtain ⟨type, index, found, -⟩ := known
  exact (Array.getElem?_eq_some_iff.mp found).1

/-- A function that is declared has a type, and so it is only unknown functions that are not found. -/
theorem function_error_iff {C : IndexSpace} (typed : ∀ type ∈ C.functions, type.toNat < C.types.size) {func : UInt32}
    {w : Violation} : C.function func = .error w ↔ C.functions.size ≤ func.toNat ∧ w = .unknown .function func := by
  by_cases below : func.toNat < C.functions.size
  · have known := typed C.functions[func.toNat] (Array.getElem_mem below)
    have found : C.function func = .ok C.types[C.functions[func.toNat].toNat] := IndexSpace.function_ok_iff.mpr
      ⟨_, Array.getElem?_eq_getElem below, Array.getElem?_eq_getElem known⟩
    rw [found]
    simp only [reduceCtorEq, false_iff]
    omega
  · have missing : C.function func = .error (.unknown .function func) := by
      rw [IndexSpace.function, IndexSpace.find, Array.getElem?_eq_none (by omega)]
      rfl
    rw [missing, Except.error.injEq]
    constructor
    · rintro rfl
      exact ⟨by omega, rfl⟩
    · exact fun same => same.2.symm

theorem definedFunctions_eq {C : IndexSpace} (holds : C.Holds told) :
    C.definedFunctions = (told.filterMap declaredFunction?).length := by
  have size := holds.functions.size_eq
  unfold IndexSpace.definedFunctions
  omega

/-- More events make no fewer functions. -/
theorem functions_mono {C C' : IndexSpace} {e : Event} (holds : C.Holds told) (later : C'.Holds (told ++ [e])) :
    C.functions.size ≤ C'.functions.size ∧ C.definedFunctions ≤ C'.definedFunctions := by
  have size := holds.functions.size_eq
  have size' := later.functions.size_eq
  have counted := holds.functions.counted
  have counted' := later.functions.counted
  rw [definedFunctions_eq holds, definedFunctions_eq later]
  rw [List.filterMap_append, List.length_append] at *
  omega

/-- The functions that an entry mentions exist. -/
theorem known_of_judges {e : Entry} (judges : v.Judges (.entry e)) :
    ∀ func ∈ (Item.entry e).mentions, func.toNat < v.space.functions.size := by
  intro func member
  cases e with
  | exported e =>
    obtain ⟨-, ⟨kind, known⟩ | ⟨kind, -⟩ | ⟨kind, -⟩ | ⟨kind, -⟩⟩ := judges
    all_goals simp only [Item.mentions, Export.mentions, kind] at member
    · rw [List.mem_singleton.mp member]
      exact lt_of_hasFunction known
    all_goals cases member
  | element s =>
    obtain ⟨type, -, -, elements⟩ := judges
    obtain ⟨tag, mode, init⟩ := s
    cases init with
    | functions funcs => exact lt_of_hasFunction (elements.2 func member)
    | expressions => cases member
  | _ => cases member

/-- The expression that is opened sees the functions that there are. -/
theorem functions_of_opens {x : Site} {o : OpenExpr} (opens : v.Opens x o) :
    o.scope.space.functions = v.space.functions := by
  cases x with
  | global d =>
    obtain ⟨t, -, rfl⟩ := opens
    rfl
  | elementOffset | dataOffset =>
    obtain ⟨-, rfl⟩ := opens
    rfl
  | elementItem =>
    obtain ⟨last, -, -, rfl⟩ := opens
    rfl
  | code decls =>
    obtain ⟨-, type, locals, -, -, rfl⟩ := opens
    rfl

theorem integral_start : Integral {} [] where
  sound := ⟨by simp, by simp, by simp, by simp⟩
  holds := ⟨⟨rfl, rfl⟩, ⟨rfl, rfl⟩⟩
  bodies := Nat.le_refl _
  refs := by simp
  scope := by simp
  entries := Nat.le_refl _
  segments := Nat.le_refl _

theorem length_sections_concat (told : List Event) (e : Event) :
    ((told ++ [e]).filterMap section?).length = (told.filterMap section?).length + e.section?.toList.length := by
  rw [List.filterMap_append, List.length_append]
  cases here : e.section? <;> simp [here]

theorem Integral.of_entry {e : Entry} (tracks : Tracks v told) (integral : Integral v told)
    (follows : v.Follows (Item.entry e).section?) (judges : v.Judges (.entry e)) :
    Integral (v.after (.entry e)) (told ++ [.entry e]) := by
  have holds := holds_entry tracks integral.holds follows
  have mono := functions_mono integral.holds holds
  constructor
  case sound => exact sound_entry integral.sound judges
  case holds => exact holds
  case bodies => exact integral.bodies.trans mono.2
  case refs =>
    intro func member
    refine Nat.lt_of_lt_of_le ?_ mono.1
    rcases FuncRefs.mem_declaring_iff.mp member with mentioned | member
    · exact known_of_judges judges func mentioned
    · exact integral.refs func member
  case scope => exact fun o member => (integral.scope o member).trans mono.1
  case entries =>
    rw [length_sections_concat]
    exact (v.space.entries_add (.entry e)).trans (Nat.add_le_add_right integral.entries _)
  case segments =>
    rw [length_sections_concat]
    have seen := integral.segments
    cases e with
    | data s => exact Nat.add_le_add_right seen 1
    | _ => exact seen.trans (Nat.le_add_right ..)

theorem Integral.of_site {x : Site} {o : OpenExpr} (integral : Integral v told) (opens : v.Opens x o) :
    Integral { v.after (.expr x []) with expr := some o } (told ++ [.site x]) := by
  have holds := holds_site (x := x) integral.holds
  have mono := functions_mono integral.holds holds
  constructor
  case sound => exact sound_site integral.sound x
  case holds => exact holds
  case bodies =>
    cases x with
    | code decls => exact opens.1
    | _ => exact integral.bodies.trans mono.2
  case refs =>
    intro func member
    refine Nat.lt_of_lt_of_le (integral.refs func ?_) mono.1
    cases x <;> exact member
  case scope =>
    rintro _ ⟨⟩
    rw [functions_of_opens opens]
    exact mono.1
  case entries =>
    rw [length_sections_concat]
    exact (v.space.entries_add (.expr x [])).trans (Nat.add_le_add_right integral.entries _)
  case segments =>
    rw [length_sections_concat]
    exact integral.segments.trans (Nat.le_add_right ..)

theorem Integral.of_spares (integral : Integral v told) (spares : Spares v v') : Integral v' told where
  sound := spares.space ▸ integral.sound
  holds := spares.space ▸ integral.holds
  bodies := by
    have := integral.bodies
    have := spares.bodies
    rw [spares.space]
    omega
  refs func member := by
    rw [spares.space]
    rcases spares.refs func member with member | known
    · exact integral.refs func member
    · exact lt_of_hasFunction known
  scope := by
    rw [spares.space, spares.expr]
    exact integral.scope
  entries := spares.space ▸ integral.entries
  segments := spares.dataSeen ▸ integral.segments

theorem Integral.beside (integral : Integral v told) (within : Within v v') : Integral v' told := by
  have refs : ∀ func ∈ v'.refs, func.toNat < v.space.functions.size := by
    intro func member
    rcases within.refs func member with member | ⟨o, opened, known⟩
    · exact integral.refs func member
    · exact Nat.lt_of_lt_of_le (lt_of_hasFunction known) (integral.scope o opened)
  have scope : ∀ o ∈ v'.expr, o.scope.space.functions.size ≤ v.space.functions.size := by
    intro o opened
    obtain ⟨o', opened, same⟩ := within.expr o opened
    exact same ▸ integral.scope o' opened
  rw [within.same]
  exact ⟨integral.sound, integral.holds, integral.bodies, refs, scope, integral.entries, integral.segments⟩

theorem Integral.inside {e : Event} (integral : Integral v told) (inside : e.IsInside) : Integral v (told ++ [e]) where
  sound := integral.sound
  holds := holds_inside integral.holds inside
  bodies := integral.bodies
  refs := integral.refs
  scope := integral.scope
  entries := by
    rw [length_sections_concat]
    exact integral.entries.trans (Nat.le_add_right ..)
  segments := by
    rw [length_sections_concat]
    exact integral.segments.trans (Nat.le_add_right ..)

/-- Whatever became of each event, the state stays in one piece. -/
theorem integral_after (es : List Event) : Integral (consumer.after es {}) (consumer.accepted es {}) := by
  suffices both : Tracks (consumer.after es {}) (consumer.accepted es {}) ∧
      Integral (consumer.after es {}) (consumer.accepted es {}) from both.2
  apply holds_along (P := fun v told => Tracks v told ∧ Integral v told)
  · exact ⟨tracks_start, integral_start⟩
  · rintro v told e v' ⟨tracks, integral⟩ effect
    refine ⟨tracks.accept effect, ?_⟩
    cases effect with
    | entry follows judges => exact integral.of_entry tracks follows judges
    | site follows opens => exact integral.of_site opens
    | inside inside within => exact (integral.inside inside).beside within
  · rintro v told e v' ⟨tracks, integral⟩ effect
    refine ⟨tracks.reject effect, ?_⟩
    cases effect with
    | rejected outside spares => exact integral.of_spares spares
    | inside inside within => exact integral.beside within

/-- In whatever order events come, whatever becomes of them and whatever expressions hold, the index spaces have legal
entries only and imports come first; a function is not found only if there is none of that index; no more bodies were
seen than functions were declared, and every function that was referenced exists. No index space has more entries than
there were events, and so fewer than 2^32 events do not exhaust the indices. -/
theorem index_spaces_intact (es : List Event) :
    let v := consumer.after es {}
    let told := consumer.accepted es {}
    v.space.Sound ∧ v.space.Holds told ∧
      (∀ func w, v.space.function func = .error w ↔ v.space.functions.size ≤ func.toNat ∧ w = .unknown .function func) ∧
      v.space.importedFunctions ≤ v.space.functions.size ∧ v.space.importedGlobals ≤ v.space.globals.size ∧
      v.bodiesSeen ≤ v.space.definedFunctions ∧
      (∀ func ∈ v.refs, func.toNat < v.space.functions.size) ∧
      v.space.entries ≤ (es.filterMap section?).length ∧ v.dataSeen ≤ (es.filterMap section?).length := by
  have integral := integral_after es
  have fewer := ((Consumer.accepted_sublist (C := consumer) es {}).filterMap section?).length_le
  have functions := integral.holds.functions.size_eq
  have globals := integral.holds.globals.size_eq
  exact ⟨integral.sound, integral.holds, fun _ _ => function_error_iff integral.sound.typed, by omega, by omega,
    integral.bodies, integral.refs, integral.entries.trans fewer, integral.segments.trans fewer⟩

end Validator

end Wasm
