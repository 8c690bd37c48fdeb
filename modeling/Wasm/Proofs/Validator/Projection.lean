import Wasm.Proofs.Validator.Agreement
import Wasm.Proofs.Validator.Conformance
import Wasm.Proofs.Validator.Modules

/-! # Index spaces and trees of the same bytes

Bytes are validated for their index spaces and for their tree with the same outcome. The two describe one module: the
tree is the one that a builder makes of the bytes by itself, and the index spaces hold what the tree declares, in its
order and with every declaration checked.
-/

namespace Wasm

open Binary Outcome

/-! ## What a tree declares -/

namespace ImportDesc

def tableDecl? : ImportDesc → Option TableDecl
  | .table d => some d
  | _ => none

def globalDecl? : ImportDesc → Option GlobalDecl
  | .global d => some d
  | _ => none

theorem table?_eq (desc : ImportDesc) : desc.table? = desc.tableDecl?.bind TableDecl.type? := by
  cases desc <;> rfl

theorem global?_eq (desc : ImportDesc) : desc.global? = desc.globalDecl?.bind GlobalDecl.type? := by
  cases desc <;> rfl

end ImportDesc

/-- The index spaces hold what a tree declares: imports come before definitions, all declarations are legal, and constant
expressions see the imported globals. -/
structure IndexSpace.Projects (C : IndexSpace) (t : Tree) : Prop where
  types : t.types.mapM FuncDecl.check = .ok C.types
  functions : C.functions = t.imports.filterMap (·.desc.function?) ++ t.functions
  importedFunctions : C.importedFunctions = (t.imports.filterMap (·.desc.function?)).size
  tables : (t.imports.filterMap (·.desc.tableDecl?) ++ t.tables).mapM TableDecl.check = .ok C.tables
  memories : C.memories = t.imports.filterMap (·.desc.memory?) ++ t.memories
  globals : (t.imports.filterMap (·.desc.globalDecl?) ++ t.globals.map (·.decl)).mapM GlobalDecl.check = .ok C.globals
  importedGlobals : C.importedGlobals = (t.imports.filterMap (·.desc.globalDecl?)).size
  constantGlobals :
    (t.imports.filterMap (·.desc.globalDecl?)).mapM GlobalDecl.check = .ok (C.globals.take C.importedGlobals)
  elements : t.elements.mapM (fun e => RefType.check e.segment.tag) = .ok C.elements
  dataCount : C.dataCount = t.dataCount

/-- Where all declarations are legal, checking them finds what they mean. -/
theorem mapM_check {α β : Type} {check : α → Verdict β} {meaning : α → Option β} {as : Array α}
    (legal : ∀ a ∈ as, ∃ b, check a = .ok b ∧ meaning a = some b) : as.mapM check = .ok (as.filterMap meaning) := by
  obtain ⟨as⟩ := as
  simp only [List.mem_toArray] at legal
  have listed : as.mapM check = .ok (as.filterMap meaning) := by
    induction as with
    | nil => rfl
    | cons a as ih =>
      obtain ⟨⟨b, checked, meant⟩, others⟩ := List.forall_mem_cons.mp legal
      rw [List.mapM_cons, checked, ih others, List.filterMap_cons_some meant]
      rfl
  rw [Array.mapM_eq_mapM_toList, listed]
  simp

theorem FuncDecl.check_of_legal {d : FuncDecl} (legal : d.Legal) : ∃ t, d.check = .ok t ∧ d.type? = some t := by
  obtain ⟨t, meant⟩ := Option.isSome_iff_exists.mp (legal_iff.mp legal)
  exact ⟨t, check_ok_iff.mpr meant, meant⟩

theorem TableDecl.check_of_legal {d : TableDecl} (legal : d.Legal) : ∃ t, d.check = .ok t ∧ d.type? = some t := by
  obtain ⟨within, isType⟩ := legal_iff.mp legal
  obtain ⟨t, meant⟩ := Option.isSome_iff_exists.mp isType
  exact ⟨t, check_ok_iff.mpr ⟨within, meant⟩, meant⟩

theorem GlobalDecl.check_of_legal {d : GlobalDecl} (legal : d.Legal) : ∃ t, d.check = .ok t ∧ d.type? = some t := by
  obtain ⟨t, meant⟩ := Option.isSome_iff_exists.mp (legal_iff.mp legal)
  exact ⟨t, check_ok_iff.mpr meant, meant⟩

namespace Validator

/-- Every item of a run that breaks no rule is judged in some state. -/
theorem judges_of_mem {v : Validator} {xs : List Item} {x : Item} (judged : v.JudgesAll xs) (member : x ∈ xs) :
    ∃ w : Validator, w.Judges x := by
  induction xs generalizing v with
  | nil => cases member
  | cons y ys ih =>
    rcases List.mem_cons.mp member with rfl | later
    · exact ⟨v, judged.1⟩
    · exact ih judged.2 later

end Validator

namespace Tree

variable {t : Tree}

/-- If no rule is broken, imports are legal by themselves. -/
theorem legal_of_imports (judged : ∀ s, (t.stateAt s).JudgesAll (t.part s)) :
    (∀ d ∈ t.imports.filterMap (·.desc.tableDecl?), d.Legal) ∧
      ∀ d ∈ t.imports.filterMap (·.desc.globalDecl?), d.Legal := by
  have each : ∀ i ∈ t.imports, ∃ w : Validator, w.JudgesImport i.desc := fun i member =>
    Validator.judges_of_mem (judged .imports) (List.mem_map.mpr ⟨_, Array.mem_toList_iff.mpr member, rfl⟩)
  refine ⟨fun d member => ?_, fun d member => ?_⟩
  · obtain ⟨⟨source, name, desc⟩, inside, found⟩ := Array.mem_filterMap.mp member
    obtain ⟨w, legal⟩ := each _ inside
    cases desc with
    | table d' =>
      cases found
      exact legal
    | function | memory | global => cases found
  · obtain ⟨⟨source, name, desc⟩, inside, found⟩ := Array.mem_filterMap.mp member
    obtain ⟨w, legal⟩ := each _ inside
    cases desc with
    | global d' =>
      cases found
      exact legal
    | function | memory | table => cases found

/-- If no rule is broken, the index spaces of a tree leave out nothing that it declares. -/
theorem space_projects (judged : ∀ s, (t.stateAt s).JudgesAll (t.part s)) : t.space.Projects t := by
  obtain ⟨importedTables, importedGlobals⟩ := legal_of_imports judged
  have tables : t.imports.filterMap (·.desc.table?) =
      (t.imports.filterMap (·.desc.tableDecl?)).filterMap TableDecl.type? := by
    rw [Array.filterMap_filterMap]
    simp only [ImportDesc.table?_eq]
  have globals : t.imports.filterMap (·.desc.global?) =
      (t.imports.filterMap (·.desc.globalDecl?)).filterMap GlobalDecl.type? := by
    rw [Array.filterMap_filterMap]
    simp only [ImportDesc.global?_eq]
  have constants : (t.imports.filterMap (·.desc.globalDecl?)).mapM GlobalDecl.check =
      .ok (t.imports.filterMap (·.desc.global?)) := by
    rw [globals]
    exact mapM_check fun d member => GlobalDecl.check_of_legal (importedGlobals d member)
  have size : (t.imports.filterMap (·.desc.global?)).size = (t.imports.filterMap (·.desc.globalDecl?)).size := by
    rw [globals, Array.filterMap_size_eq_size]
    exact fun d member => GlobalDecl.legal_iff.mp (importedGlobals d member)
  constructor
  case types =>
    refine mapM_check fun d member => FuncDecl.check_of_legal ?_
    obtain ⟨w, legal⟩ :=
      Validator.judges_of_mem (judged .type) (List.mem_map.mpr ⟨_, Array.mem_toList_iff.mpr member, rfl⟩)
    exact legal
  case tables =>
    show _ = Except.ok (_ ++ t.tables.filterMap TableDecl.type?)
    rw [tables, ← Array.filterMap_append Array.size_append]
    refine mapM_check fun d member => TableDecl.check_of_legal ?_
    rcases Array.mem_append.mp member with imported | declared
    · exact importedTables d imported
    · obtain ⟨w, legal⟩ :=
        Validator.judges_of_mem (judged .table) (List.mem_map.mpr ⟨_, Array.mem_toList_iff.mpr declared, rfl⟩)
      exact legal
  case globals =>
    have defined : t.globals.filterMap (·.decl.type?) = (t.globals.map (·.decl)).filterMap GlobalDecl.type? := by
      rw [Array.filterMap_map]
      rfl
    show _ = Except.ok (_ ++ t.globals.filterMap (·.decl.type?))
    rw [globals, defined, ← Array.filterMap_append Array.size_append]
    refine mapM_check fun d member => ?_
    rcases Array.mem_append.mp member with imported | declared
    · exact GlobalDecl.check_of_legal (importedGlobals d imported)
    · obtain ⟨g, inside, rfl⟩ := Array.mem_map.mp declared
      obtain ⟨w, type, meant, -⟩ :=
        Validator.judges_of_mem (judged .global) (List.mem_map.mpr ⟨_, Array.mem_toList_iff.mpr inside, rfl⟩)
      exact ⟨type, GlobalDecl.check_ok_iff.mpr meant, meant⟩
  case importedGlobals => exact size
  case constantGlobals =>
    rw [constants]
    show _ = Except.ok ((t.imports.filterMap (·.desc.global?) ++ t.globals.filterMap (·.decl.type?)).extract 0
      (t.imports.filterMap (·.desc.global?)).size)
    rw [Array.extract_append_left, Array.extract_size]
  case elements =>
    refine mapM_check fun e member => ?_
    have streamed : .entry (.element e.segment) ∈ t.part .element :=
      List.mem_flatMap.mpr ⟨e, Array.mem_toList_iff.mpr member, List.mem_cons_self⟩
    obtain ⟨w, type, meant, -⟩ := Validator.judges_of_mem (judged .element) streamed
    exact ⟨type, RefType.check_ok_iff.mpr (RefType.ofTag?_some_iff.mp meant), meant⟩
  all_goals rfl

end Tree

/-! ## Bytes -/

open Wasm.Tree

/-- A consumer that accepts bytes to their end has heard all that they tell. -/
theorem Binary.hearAll_of_deliver {σ : Type} {C : Consumer σ} {s t : σ} {bytes : List UInt8} {told : List Notice}
    {r : Except DecodeError (Unit × Cursor × Nat)}
    (tells : Tells (fun _ C => Producer.produce C) (.ofBytes bytes) 0 told r)
    (accepted : deliver C bytes s = (.ok (), t)) : C.hearAll told s = .ok () t := by
  rw [deliver_of_tells tells] at accepted
  cases heard : C.hearAll told s with
  | ok u t' =>
    rw [heard] at accepted
    obtain ⟨-, rfl⟩ := Prod.mk.inj accepted
    rfl
  | error e t' =>
    rw [heard] at accepted
    cases accepted

/-- Bytes that the validator accepts have a tree. Replayed, the tree is accepted as well, and a builder behind the validator
makes the same tree of the bytes as a builder by itself. -/
theorem Validator.replay_of_deliver {bytes : List UInt8} {v : Validator}
    (accepted : deliver consumer bytes {} = (.ok (), v)) :
    ∃ b on, deliver Builder.consumer bytes {} = (.ok (), b) ∧ b.tree.replay consumer {} = .ok () v ∧
      deliver consumer.withTree bytes ({}, { state := {} }) = (.ok (), v, ⟨b, on⟩) := by
  obtain ⟨b, built⟩ := Builder.obliging.deliver_of_deliver accepted {}
  obtain ⟨told, c, n, version, ps, tells, same, ordered, trimmed, tree⟩ := pieces_of_built built
  have validated := hearAll_of_deliver tells accepted
  have collected := hearAll_of_deliver tells built
  rw [Consumer.hearAll_frameless _ (fun _ _ => rfl), same] at validated collected
  let fresh : Listener Builder := { state := {} }
  obtain ⟨on, both⟩ := Consumer.follow_items_ok (l := fresh) (fun _ _ _ _ => takes_of_site)
    (Consumer.items_of_hearAll _ validated) (Consumer.items_of_hearAll _ collected)
  refine ⟨b, on, built, ?_, ?_⟩
  · rw [hearAll_replayed version ordered, ← tree] at validated
    exact Consumer.items_of_hearAll _ validated
  · have heard : consumer.withTree.hearAll told ({}, { state := {} }) = .ok () (v, ⟨b, on⟩) := by
      rw [Consumer.hearAll_frameless _ (fun _ _ => rfl), same]
      exact Consumer.hearAll_of_items _ both
    rw [deliver_of_tells tells, heard]
    rfl

/-- Validation for index spaces and validation for a tree have the same outcome. If they fail, it is with the same error.
If they succeed, the tree is the one that a builder makes of the bytes, and the index spaces hold what it declares. -/
theorem validateTree_agrees_with_validate (bytes : List UInt8) :
    (∃ e, validate bytes = .error e ∧ validateTree bytes = .error e) ∨
    ∃ C b, validate bytes = .ok C ∧ validateTree bytes = .ok b.tree ∧
      deliver Builder.consumer bytes {} = (.ok (), b) ∧ C.Projects b.tree := by
  rcases delivered : deliver Validator.consumer bytes {} with ⟨_ | _, v⟩
  case error e =>
    obtain ⟨l, both⟩ := Builder.obliging.deliver_follow (C := Validator.consumer) bytes {} { state := {} }
    rw [delivered] at both
    refine .inl ⟨e, ?_, ?_⟩
    · rw [validate, delivered]
    · rw [validateTree, Consumer.withTree, both]
  case ok =>
    obtain ⟨b, on, built, replayed, both⟩ := Validator.replay_of_deliver delivered
    obtain ⟨judged, rfl⟩ := (replay_ok_iff b.tree).mp replayed
    rw [judgesAll_items_iff] at judged
    refine .inr ⟨b.tree.space, b, ?_, ?_, built, space_projects judged⟩
    · rw [validate, delivered]
      dsimp only
      rw [Validator.moveTo_space, receiveAll_items_space]
    · rw [validateTree, both]

end Wasm
