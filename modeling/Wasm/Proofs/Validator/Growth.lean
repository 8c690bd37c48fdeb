import Wasm.Proofs.Typing.Growth
import Wasm.Proofs.Validator.Effects

/-! # Index spaces are appended to

Handling an event changes much of the state before it is known whether the event is accepted. The index spaces are not
part of that: they change at most once for an event, at the end of one of them, and only if the event is accepted. So
whatever was found in them is found in them ever after, whichever events come and whatever becomes of those.
-/

namespace Wasm

open Outcome

/-- Whether an event declares something that is numbered, or how many data segments there are. -/
def Event.declares : Event → Bool
  | .entry (.type _) | .entry (.imported _) | .entry (.function _) | .entry (.table _) | .entry (.memory _)
  | .entry (.element _) | .entry (.dataCount _) | .site (.global _) => true
  | .entry (.header _) | .entry (.custom ..) | .entry (.exported _) | .entry (.start _) | .entry (.data _)
  | .entry .finish | .site .elementOffset | .site .elementItem | .site (.code _) | .site .dataOffset
  | .instruction _ | .exprEnd => false

namespace IndexSpace

/-- What an event that declares something makes of the index spaces: one of them has one more entry, at its end, or the
number of data segments is known and was not before. -/
inductive Gains (S : IndexSpace) : Event → IndexSpace → Prop where
  | type {d : FuncDecl} {t : FuncType} (meant : d.type? = some t) :
      S.Gains (.entry (.type d)) { S with types := S.types.push t }
  | function (type : UInt32) : S.Gains (.entry (.function type)) { S with functions := S.functions.push type }
  | importedFunction {i : Import} {type : UInt32} (desc : i.desc = .function type) :
      S.Gains (.entry (.imported i))
        { S with functions := S.functions.push type, importedFunctions := S.importedFunctions + 1 }
  | table {d : TableDecl} {t : TableType} (meant : d.type? = some t) :
      S.Gains (.entry (.table d)) { S with tables := S.tables.push t }
  | importedTable {i : Import} {d : TableDecl} {t : TableType} (desc : i.desc = .table d) (meant : d.type? = some t) :
      S.Gains (.entry (.imported i)) { S with tables := S.tables.push t }
  | memory (l : Limits) : S.Gains (.entry (.memory l)) { S with memories := S.memories.push l }
  | importedMemory {i : Import} {l : Limits} (desc : i.desc = .memory l) :
      S.Gains (.entry (.imported i)) { S with memories := S.memories.push l }
  | global {d : GlobalDecl} {t : GlobalType} (meant : d.type? = some t) :
      S.Gains (.site (.global d)) { S with globals := S.globals.push t }
  | importedGlobal {i : Import} {d : GlobalDecl} {t : GlobalType} (desc : i.desc = .global d)
      (meant : d.type? = some t) :
      S.Gains (.entry (.imported i))
        { S with globals := S.globals.push t, importedGlobals := S.importedGlobals + 1 }
  | element {s : ElementSegment} {t : RefType} (meant : RefType.ofTag? s.tag = some t) :
      S.Gains (.entry (.element s)) { S with elements := S.elements.push t }
  | dataCount (count : UInt32) (absent : S.dataCount = none) :
      S.Gains (.entry (.dataCount count)) { S with dataCount := some count }

/-! ## Growing -/

variable {S T U : IndexSpace}

theorem Extends.refl (S : IndexSpace) : S.Extends S where
  types := List.prefix_rfl
  functions := List.prefix_rfl
  tables := List.prefix_rfl
  memories := List.prefix_rfl
  globals := List.prefix_rfl
  elements := List.prefix_rfl
  dataCount count known := ⟨count, known, UInt32.le_refl count⟩

theorem Extends.trans (first : S.Extends T) (second : T.Extends U) : S.Extends U where
  types := first.types.trans second.types
  functions := first.functions.trans second.functions
  tables := first.tables.trans second.tables
  memories := first.memories.trans second.memories
  globals := first.globals.trans second.globals
  elements := first.elements.trans second.elements
  dataCount count known := by
    obtain ⟨next, announced, more⟩ := first.dataCount count known
    obtain ⟨last, announced', more'⟩ := second.dataCount next announced
    exact ⟨last, announced', UInt32.le_trans more more'⟩

/-- Index spaces that are got from `S` by adding to it. -/
structure Grows (S T : IndexSpace) : Prop where
  entries : S.Extends T
  imported : S.importedGlobals ≤ T.importedGlobals

theorem Grows.refl (S : IndexSpace) : S.Grows S := ⟨.refl S, Nat.le_refl _⟩

theorem Grows.trans (first : S.Grows T) (second : T.Grows U) : S.Grows U :=
  ⟨first.entries.trans second.entries, first.imported.trans second.imported⟩

theorem prefix_push {α : Type} (entries : Array α) (a : α) : entries.toList <+: (entries.push a).toList := by
  rw [Array.toList_push]
  exact List.prefix_append _ _

theorem Gains.grows {e : Event} (gains : S.Gains e T) : S.Grows T := by
  have same := Extends.refl S
  cases gains with
  | type => exact ⟨{ same with types := prefix_push _ _ }, Nat.le_refl _⟩
  | function | importedFunction => exact ⟨{ same with functions := prefix_push _ _ }, Nat.le_refl _⟩
  | table | importedTable => exact ⟨{ same with tables := prefix_push _ _ }, Nat.le_refl _⟩
  | memory | importedMemory => exact ⟨{ same with memories := prefix_push _ _ }, Nat.le_refl _⟩
  | global => exact ⟨{ same with globals := prefix_push _ _ }, Nat.le_refl _⟩
  | importedGlobal => exact ⟨{ same with globals := prefix_push _ _ }, Nat.le_succ _⟩
  | element => exact ⟨{ same with elements := prefix_push _ _ }, Nat.le_refl _⟩
  | dataCount count absent =>
    refine ⟨{ same with dataCount := fun count known => ?_ }, Nat.le_refl _⟩
    rw [absent] at known
    cases known

/-! ## Lookups -/

/-- Every lookup that `S` has an answer to has the same answer in `T`. -/
structure Repeats (T S : IndexSpace) : Prop where
  type : ∀ index t, S.type index = .ok t → T.type index = .ok t
  function : ∀ func t, S.function func = .ok t → T.function func = .ok t
  table : ∀ index t, S.table index = .ok t → T.table index = .ok t
  memory : ∀ index l, S.memory index = .ok l → T.memory index = .ok l
  global : ∀ index t, S.global index = .ok t → T.global index = .ok t
  element : ∀ index t, S.element index = .ok t → T.element index = .ok t
  data : ∀ index, S.checkData index = .ok () → T.checkData index = .ok ()
  constantGlobal : ∀ index t, (Scope.constant S).global index = .ok t → (Scope.constant T).global index = .ok t

theorem find_of_prefix {α : Type} {kind : IndexKind} {entries later : Array α} {index : UInt32} {a : α}
    (grown : entries.toList <+: later.toList) (found : find kind entries index = .ok a) :
    find kind later index = .ok a := by
  apply find_ok_iff.mpr
  exact found_of_prefix grown (find_ok_iff.mp found)

theorem Grows.repeats (grows : S.Grows T) : T.Repeats S := by
  obtain ⟨grown, imported⟩ := grows
  have wider := grown.constant_widens imported
  constructor
  case type => exact fun _ _ => find_of_prefix grown.types
  case table => exact fun _ _ => find_of_prefix grown.tables
  case memory => exact fun _ _ => find_of_prefix grown.memories
  case global => exact fun _ _ => find_of_prefix grown.globals
  case element => exact fun _ _ => find_of_prefix grown.elements
  case function =>
    intro func t found
    apply Scope.function_ok_iff (Γ := .constant T).mpr
    exact wider.hasFunction (Scope.function_ok_iff.mp found)
  case data =>
    intro index found
    apply Scope.checkData_ok_iff (Γ := .constant T).mpr
    exact wider.hasData (Scope.checkData_ok_iff.mp found)
  case constantGlobal =>
    intro index t found
    apply Scope.global_ok_iff.mpr
    exact wider.hasGlobal (Scope.global_ok_iff.mp found)

/-! ## Accepted events -/

/-- What an accepted event makes of the index spaces. -/
def Advances (S : IndexSpace) (e : Event) (T : IndexSpace) : Prop :=
  if e.declares then S.Gains e T else T = S

theorem Advances.grows {e : Event} (advances : S.Advances e T) : S.Grows T := by
  unfold Advances at advances
  split at advances
  · exact advances.grows
  · subst advances
    exact .refl _

/-- A declaration that means a type adds that type. -/
theorem Gains.of_elim {α : Type} {type : Option α} {f : α → IndexSpace} {e : Event} (legal : type.isSome)
    (added : ∀ t, type = some t → S.Gains e (f t)) : S.Gains e (type.elim S f) := by
  obtain ⟨t, meant⟩ := Option.isSome_iff_exists.mp legal
  rw [meant]
  exact added t meant

end IndexSpace

namespace Validator

open IndexSpace

variable {v v' : Validator}

theorem gains_imported {i : Import} (judges : v.JudgesImport i.desc) :
    v.space.Gains (.entry (.imported i)) (v.space.addImport i.desc) := by
  cases desc : i.desc with
  | function type => exact .importedFunction desc
  | memory l => exact .importedMemory desc
  | table d =>
    rw [desc] at judges
    apply Gains.of_elim (TableDecl.legal_iff.mp judges).2
    exact fun _ => .importedTable desc
  | global d =>
    rw [desc] at judges
    apply Gains.of_elim (GlobalDecl.legal_iff.mp judges)
    exact fun _ => .importedGlobal desc

theorem advances_entry {e : Entry} (judges : v.Judges (.entry e)) :
    v.space.Advances (.entry e) (v.space.add (.entry e)) := by
  cases e with
  | type d => exact Gains.of_elim (FuncDecl.legal_iff.mp judges) fun _ => .type
  | imported i => exact gains_imported judges
  | function type => exact .function type
  | table d => exact Gains.of_elim (TableDecl.legal_iff.mp judges).2 fun _ => .table
  | memory l => exact .memory l
  | element s =>
    obtain ⟨t, meant, -⟩ := judges
    exact Gains.of_elim (Option.isSome_of_eq_some meant) fun _ => .element
  | dataCount count => exact .dataCount count judges
  | header | custom | exported | start | data | finish => exact rfl

theorem advances_site {x : Site} {o : OpenExpr} (opens : v.Opens x o) :
    v.space.Advances (.site x) (v.space.add (.expr x [])) := by
  cases x with
  | global d =>
    obtain ⟨t, meant, -⟩ := opens
    exact Gains.of_elim (Option.isSome_of_eq_some meant) fun _ => .global
  | elementOffset | elementItem | code | dataOffset => exact rfl

theorem advances_of_accepted {e : Event} (effect : Effect v e true v') : v.space.Advances e v'.space := by
  cases effect with
  | entry _ judges => exact advances_entry judges
  | site _ opens => exact advances_site opens
  | inside inside within =>
    rw [within.same]
    cases e with
    | entry | site => exact inside.elim
    | instruction | exprEnd => exact rfl

theorem space_of_rejected {e : Event} (effect : Effect v e false v') : v'.space = v.space := by
  cases effect with
  | rejected _ spares => exact spares.space
  | inside _ within => rw [within.same]

theorem grows_event (e : Event) (v : Validator) : v.space.Grows (left (consumer.event e v)).space := by
  have effect := effect_event e v
  cases outcome : isOk (consumer.event e v) with
  | true =>
    rw [outcome] at effect
    exact (advances_of_accepted effect).grows
  | false =>
    rw [outcome] at effect
    rw [space_of_rejected effect]
    exact .refl _

theorem grows_after (es : List Event) (v : Validator) : v.space.Grows (consumer.after es v).space := by
  induction es generalizing v with
  | nil => exact .refl _
  | cons e rest ih => exact (grows_event e v).trans (ih _)

/-- However the state was reached, an event that is rejected leaves the index spaces as they were; one that is accepted
and declares something adds what it declares at the end of one of them, or announces the data segments that none had
announced, and any other leaves them as they were too. Whatever a lookup found in some state it finds in every later
one. -/
theorem index_spaces_append_only (es : List Event) :
    (∀ e w v', consumer.event e (consumer.after es {}) = .error w v' → v'.space = (consumer.after es {}).space) ∧
    (∀ e takes v', consumer.event e (consumer.after es {}) = .ok takes v' →
      if e.declares then (consumer.after es {}).space.Gains e v'.space else v'.space = (consumer.after es {}).space) ∧
    ∀ more, (consumer.after (es ++ more) {}).space.Repeats (consumer.after es {}).space := by
  refine ⟨?_, ?_, ?_⟩
  · intro e w v' failed
    have effect := effect_event e (consumer.after es {})
    rw [failed] at effect
    exact space_of_rejected effect
  · intro e takes v' done
    have effect := effect_event e (consumer.after es {})
    rw [done] at effect
    exact advances_of_accepted effect
  · intro more
    rw [Consumer.after_append]
    apply IndexSpace.Grows.repeats
    exact grows_after more _

end Validator

end Wasm
