import Wasm.Proofs.Typing.Signature

/-! # Locals as a flat list

Runs stand for the list of the types of all locals. Appending a run does what appending its locals one by one does, so
locals that were built from parameters and any number of further runs are the collection of their flat list: they have
its length and its entries, and two of them are the same exactly if their lists are. Declared runs are accepted exactly if
their tags are legal and they are not too many. The runs stop at ascending places, so a local is also found by halving the
runs that it can belong to.
-/

namespace Wasm

/-- Declared runs stand for locals of these types: each has a legal tag. -/
inductive LocalDecl.StandFor : List LocalDecl → List ValueType → Prop where
  | nil : StandFor [] []
  | cons {d ds t ts} (legal : d.tag = ValueType.tag t) (rest : StandFor ds ts) :
      StandFor (d :: ds) (List.replicate d.count.toNat t ++ ts)

namespace Locals

/-! ## Appending one run -/

theorem empty_or_push (l : Locals) : l = {} ∨ ∃ (before : Array Run) (last : Run), l = ⟨before.push last⟩ := by
  obtain ⟨runs⟩ := l
  cases found : runs.back? with
  | none =>
    obtain rfl := Array.back?_eq_none_iff.mp found
    exact .inl rfl
  | some last =>
    obtain ⟨before, rfl⟩ := Array.back?_eq_some_iff.mp found
    exact .inr ⟨before, last, rfl⟩

@[simp] theorem size_push (before : Array Run) (last : Run) : size ⟨before.push last⟩ = last.stop := by
  simp [size]

theorem extend_empty (count : Nat) (type : ValueType) : extend {} count type = ⟨#[].push ⟨count, type⟩⟩ := by
  simp [extend, size]

theorem extend_same {last : Run} {type : ValueType} (before : Array Run) (count : Nat) (same : last.type = type) :
    extend ⟨before.push last⟩ count type = ⟨before.push ⟨last.stop + count, type⟩⟩ := by
  simp [extend, same]

theorem extend_other {last : Run} {type : ValueType} (before : Array Run) (count : Nat) (other : last.type ≠ type) :
    extend ⟨before.push last⟩ count type = ⟨(before.push last).push ⟨last.stop + count, type⟩⟩ := by
  simp [extend, other]

@[simp] theorem size_extend (l : Locals) (count : Nat) (type : ValueType) :
    (l.extend count type).size = l.size + count := by
  obtain rfl | ⟨before, last, rfl⟩ := l.empty_or_push
  · rw [extend_empty, size_push]
    exact (Nat.zero_add count).symm
  · by_cases same : last.type = type
    · rw [extend_same before count same, size_push, size_push]
    · rw [extend_other before count same, size_push, size_push]

/-- A run that continues the last one lengthens it. -/
theorem extend_extend (l : Locals) (first second : Nat) (type : ValueType) :
    (l.extend first type).extend second type = l.extend (first + second) type := by
  obtain rfl | ⟨before, last, rfl⟩ := l.empty_or_push
  · rw [extend_empty, extend_empty, extend_same _ _ rfl]
  · by_cases same : last.type = type
    · rw [extend_same before _ same, extend_same before _ same, extend_same _ _ rfl, Nat.add_assoc]
    · rw [extend_other before _ same, extend_other before _ same, extend_same _ _ rfl, Nat.add_assoc]

/-! ## Appending locals one by one -/

/-- Appends one local a type. -/
def collect (l : Locals) (types : List ValueType) : Locals := types.foldl (fun l type => l.extend 1 type) l

theorem ofTypes_eq_collect (types : List ValueType) : ofTypes types = collect {} types := rfl

theorem collect_append (l : Locals) (first second : List ValueType) :
    l.collect (first ++ second) = (l.collect first).collect second := List.foldl_append

@[simp] theorem size_collect (l : Locals) (types : List ValueType) : (l.collect types).size = l.size + types.length := by
  induction types generalizing l with
  | nil => rfl
  | cons type types ih =>
    have next : l.collect (type :: types) = (l.extend 1 type).collect types := rfl
    rw [next, ih, size_extend, List.length_cons, Nat.add_assoc, Nat.add_comm 1]

/-- A run is appended at once or local by local. -/
theorem collect_replicate (l : Locals) {count : Nat} (type : ValueType) (positive : 0 < count) :
    l.collect (List.replicate count type) = l.extend count type := by
  induction count, positive using Nat.le_induction with
  | base => rfl
  | succ count _ ih =>
    rw [List.replicate_succ', collect_append, ih]
    exact l.extend_extend count 1 type

theorem push_ok_iff {l l' : Locals} {count : UInt32} {type : ValueType} :
    l.push count type = .ok l' ↔
      l.size + count.toNat ≤ maxLocals ∧ l' = l.collect (List.replicate count.toNat type) := by
  have appended : (if count = 0 then l else l.extend count.toNat type) = l.collect (List.replicate count.toNat type) := by
    split
    · rename_i zero
      rw [zero]
      rfl
    · rename_i nonzero
      exact (l.collect_replicate type (UInt32.pos_iff_ne_zero.mpr nonzero)).symm
  rw [← appended, push]
  split
  · rename_i many
    simp [Nat.not_le.mpr many]
  · rename_i few
    rw [← apply_ite Except.ok]
    simp [Nat.not_lt.mp few, eq_comm]

theorem push_error_iff {l : Locals} {count : UInt32} {type : ValueType} {v : Violation} :
    l.push count type = .error v ↔ maxLocals < l.size + count.toNat ∧ v = .tooManyLocals (l.size + count.toNat) := by
  unfold push
  split
  · rename_i many
    simp only [many, true_and, Except.error.injEq]
    exact eq_comm
  · rename_i few
    simp only [few, false_and, iff_false]
    split <;> simp

/-! ## Locals that were built -/

/-- Appends a run; one that is rejected leaves the locals as they were. -/
def attempt (l : Locals) (run : UInt32 × ValueType) : Locals :=
  match l.push run.1 run.2 with
  | .ok l' => l'
  | .error _ => l

/-- Parameters, and runs appended after them one by one. -/
def built (params : List ValueType) (runs : List (UInt32 × ValueType)) : Locals := runs.foldl attempt (ofTypes params)

/-- The types of the locals in those of the runs that are accepted after `l`. -/
def accepted (l : Locals) : List (UInt32 × ValueType) → List ValueType
  | [] => []
  | (count, type) :: rest =>
    match l.push count type with
    | .ok l' => List.replicate count.toNat type ++ accepted l' rest
    | .error _ => accepted l rest

/-- The types of all locals: the parameters, and those of the runs that were accepted. -/
def flat (params : List ValueType) (runs : List (UInt32 × ValueType)) : List ValueType :=
  params ++ accepted (ofTypes params) runs

theorem foldl_attempt (l : Locals) (runs : List (UInt32 × ValueType)) :
    runs.foldl attempt l = l.collect (l.accepted runs) := by
  induction runs generalizing l with
  | nil => rfl
  | cons run rest ih =>
    obtain ⟨count, type⟩ := run
    rw [List.foldl_cons, ih, attempt, accepted]
    cases done : l.push count type with
    | ok l' =>
      dsimp only
      rw [(push_ok_iff.mp done).2, collect_append]
    | error v => rfl

/-- Whatever was built is the collection of its flat list. -/
theorem built_eq_ofTypes (params : List ValueType) (runs : List (UInt32 × ValueType)) :
    built params runs = ofTypes (flat params runs) := by
  rw [built, foldl_attempt, ofTypes_eq_collect, ofTypes_eq_collect, flat, collect_append, ofTypes_eq_collect]

/-! ## Entries -/

/-- The type of the local at an index, which belongs to the first run that stops after it. -/
def lookup (l : Locals) (index : Nat) : Option ValueType :=
  (l.runs.find? fun run => index < run.stop).map (·.type)

theorem get?_eq_lookup (l : Locals) (index : UInt32) : l.get? index = l.lookup index.toNat := rfl

theorem lookup_push (before : Array Run) (last : Run) (index : Nat) :
    lookup ⟨before.push last⟩ index = (lookup ⟨before⟩ index).or (if index < last.stop then some last.type else none) := by
  unfold lookup
  rw [Array.find?_push, Option.map_or]
  simp only [decide_eq_true_eq, apply_ite (Option.map _), Option.map_some, Option.map_none]

/-- Every run stops after the one before it. -/
def Ascending (l : Locals) : Prop := l.runs.Pairwise fun a b => a.stop < b.stop

theorem Ascending.extend {l : Locals} (ascending : l.Ascending) {count : Nat} (type : ValueType) (positive : 0 < count) :
    (l.extend count type).Ascending := by
  obtain rfl | ⟨before, last, rfl⟩ := l.empty_or_push
  · rw [extend_empty]
    exact Array.pairwise_push.mpr ⟨ascending, by simp⟩
  · obtain ⟨below, least⟩ := Array.pairwise_push.mp ascending
    by_cases same : last.type = type
    · rw [extend_same before count same]
      refine Array.pairwise_push.mpr ⟨below, fun run member => ?_⟩
      have := least run member
      dsimp only
      omega
    · rw [extend_other before count same]
      refine Array.pairwise_push.mpr ⟨ascending, fun run member => ?_⟩
      dsimp only
      rcases Array.mem_push.mp member with earlier | rfl
      · have := least run earlier
        omega
      · omega

theorem Ascending.stop_le_size {l : Locals} (ascending : l.Ascending) {run : Run} (member : run ∈ l.runs) :
    run.stop ≤ l.size := by
  obtain rfl | ⟨before, last, rfl⟩ := l.empty_or_push
  · cases Array.not_mem_empty run member
  · rw [size_push]
    rcases Array.mem_push.mp member with earlier | rfl
    · exact Nat.le_of_lt ((Array.pairwise_push.mp ascending).2 run earlier)
    · exact Nat.le_refl _

theorem Ascending.lookup_eq_none {l : Locals} (ascending : l.Ascending) {index : Nat} (beyond : l.size ≤ index) :
    l.lookup index = none := by
  simp only [lookup, Option.map_eq_none_iff, Array.find?_eq_none, decide_eq_true_eq, Nat.not_lt]
  exact fun run member => Nat.le_trans (ascending.stop_le_size member) beyond

/-- The entries of extended locals are those before, and then those of the run. -/
theorem Ascending.lookup_extend {l : Locals} (ascending : l.Ascending) (count : Nat) (type : ValueType) (index : Nat) :
    (l.extend count type).lookup index =
      if index < l.size then l.lookup index else if index < l.size + count then some type else none := by
  by_cases inside : index < l.size
  · rw [if_pos inside]
    obtain rfl | ⟨before, last, rfl⟩ := l.empty_or_push
    · cases inside
    · rw [size_push] at inside
      by_cases same : last.type = type
      · rw [extend_same before count same, lookup_push, lookup_push, if_pos inside, if_pos (by dsimp only; omega), same]
      · rw [extend_other before count same, lookup_push, lookup_push, if_pos inside, Option.or_assoc, Option.some_or]
  · rw [if_neg inside]
    -- nothing that was there before reaches the index
    have absent := ascending.lookup_eq_none (Nat.not_lt.mp inside)
    obtain rfl | ⟨before, last, rfl⟩ := l.empty_or_push
    · rw [extend_empty, lookup_push]
      simp [lookup, size]
    · by_cases same : last.type = type
      · rw [lookup_push, Option.or_eq_none_iff] at absent
        rw [extend_same before count same, lookup_push, absent.1, Option.none_or, size_push]
      · rw [extend_other before count same, lookup_push, absent, Option.none_or, size_push]

theorem ofTypes_append (types : List ValueType) (type : ValueType) :
    ofTypes (types ++ [type]) = (ofTypes types).extend 1 type := collect_append {} types [type]

theorem ascending_ofTypes (types : List ValueType) : (ofTypes types).Ascending := by
  induction types using List.reverseRecOn with
  | nil => exact List.Pairwise.nil
  | append_singleton types type ih =>
    rw [ofTypes_append]
    exact ih.extend type Nat.one_pos

@[simp] theorem size_ofTypes (types : List ValueType) : (ofTypes types).size = types.length := by
  rw [ofTypes_eq_collect, size_collect]
  exact Nat.zero_add _

@[simp] theorem lookup_ofTypes (types : List ValueType) (index : Nat) : (ofTypes types).lookup index = types[index]? := by
  induction types using List.reverseRecOn with
  | nil => rfl
  | append_singleton types type ih =>
    rw [ofTypes_append, (ascending_ofTypes types).lookup_extend, ih, size_ofTypes, List.getElem?_append]
    by_cases inside : index < types.length
    · rw [if_pos inside, if_pos inside]
    · rw [if_neg inside, if_neg inside, List.getElem?_singleton]
      exact if_congr (by omega) rfl rfl

/-- Runs determine the list that they were collected from. -/
theorem ofTypes_injective : Function.Injective ofTypes := by
  intro types others same
  refine List.ext_getElem? fun index => ?_
  rw [← lookup_ofTypes, same, lookup_ofTypes]

theorem isEmpty_ofTypes (types : List ValueType) : (ofTypes types).isEmpty = true ↔ types = [] := by
  refine ⟨fun empty => List.eq_nil_of_length_eq_zero ?_, fun none => none ▸ rfl⟩
  rw [← size_ofTypes, size, Array.isEmpty_iff.mp empty]
  rfl

/-! ## Declared runs -/

theorem declare_cons_ok_iff {l l' : Locals} {d : LocalDecl} {rest : List LocalDecl} :
    l.declare (d :: rest) = .ok l' ↔
      ∃ t, d.tag = ValueType.tag t ∧ l.size + d.count.toNat ≤ maxLocals ∧
        (l.collect (List.replicate d.count.toNat t)).declare rest = .ok l' := by
  simp only [← ValueType.check_ok_iff, declare]
  cases ValueType.check d.tag with
  | error v => simp
  | ok type =>
    simp only [Except.ok.injEq, exists_eq_left']
    cases pushed : l.push d.count type with
    | error v =>
      have many := (push_error_iff.mp pushed).1
      simp [Nat.not_le.mpr many]
    | ok next =>
      obtain ⟨few, rfl⟩ := push_ok_iff.mp pushed
      simp [few]

/-- Runs are declared behind parameters exactly if their tags are legal and there are not too many locals in all. Without
a run nothing is counted. -/
theorem declare_ok_iff {params : List ValueType} {decls : List LocalDecl} {l : Locals} :
    (ofTypes params).declare decls = .ok l ↔
      ∃ types, LocalDecl.StandFor decls types ∧ (decls = [] ∨ (params ++ types).length ≤ maxLocals) ∧
        l = ofTypes (params ++ types) := by
  induction decls generalizing params with
  | nil =>
    constructor
    · rintro ⟨⟩
      exact ⟨[], .nil, .inl rfl, by rw [List.append_nil]⟩
    · rintro ⟨_, ⟨⟩, -, rfl⟩
      rw [List.append_nil, declare]
  | cons d rest ih =>
    simp only [declare_cons_ok_iff, ofTypes_eq_collect, ← collect_append]
    simp only [← ofTypes_eq_collect, size_ofTypes, ih, List.append_assoc]
    constructor
    · rintro ⟨t, legal, few, types, stand, total, rfl⟩
      refine ⟨_, .cons legal stand, .inr ?_, rfl⟩
      rcases total with rfl | total
      · cases stand
        simpa using few
      · exact total
    · rintro ⟨_, stand, total, rfl⟩
      cases stand with
      | cons legal stand =>
        have total := total.resolve_left (List.cons_ne_nil d rest)
        refine ⟨_, legal, ?_, _, stand, .inr total, rfl⟩
        simp only [List.length_append, List.length_replicate] at total
        omega

/-! ## Halving the runs -/

/-- Halving search between two places for the first one that is not early. -/
def partitionPoint (early : Nat → Bool) (low high : Nat) : Nat :=
  if low < high then
    let middle := (low + high) / 2
    if early middle then partitionPoint early (middle + 1) high else partitionPoint early low middle
  else low
termination_by high - low

/-- If all places before some point are early and none from it on is, the search finds that point. -/
theorem partitionPoint_eq {early : Nat → Bool} {low high point : Nat} (after : low ≤ point) (before : point ≤ high)
    (early_of_lt : ∀ place, low ≤ place → place < point → early place = true)
    (late_of_le : ∀ place, point ≤ place → place < high → early place = false) :
    partitionPoint early low high = point := by
  fun_induction partitionPoint early low high with
  | case1 low high range middle early_middle ih =>
    have passed : middle < point := by
      by_contra reached
      rw [late_of_le middle (by omega) (by omega)] at early_middle
      cases early_middle
    exact ih (by omega) before (fun place _ => early_of_lt place (by omega)) late_of_le
  | case2 low high range middle late_middle ih =>
    have reached : point ≤ middle := by
      by_contra passed
      exact late_middle (early_of_lt middle (by omega) (by omega))
    exact ih after reached early_of_lt fun place later _ => late_of_le place later (by omega)
  | case3 low high done => omega

/-- The type of a local, found by halving the runs. -/
def search (l : Locals) (index : UInt32) : Option ValueType :=
  let stopped (place : Nat) : Bool :=
    match l.runs[place]? with
    | some run => run.stop ≤ index.toNat
    | none => false
  (l.runs[partitionPoint stopped 0 l.runs.size]?).map (·.type)

theorem Ascending.search_eq_get? {l : Locals} (ascending : l.Ascending) (index : UInt32) :
    l.search index = l.get? index := by
  rw [search, get?, Array.find?_eq_getElem?_findIdx]
  congr 2
  refine partitionPoint_eq (Nat.zero_le _) Array.findIdx_le_size (fun place _ before => ?_) fun place from_ inside => ?_
  · have inside : place < l.runs.size := Nat.lt_of_lt_of_le before Array.findIdx_le_size
    have stopped := Array.not_of_lt_findIdx before
    rw [Array.getElem?_eq_getElem inside]
    simpa using stopped
  · -- the run that is found stops after the index, and the runs behind it stop later still
    have found : l.runs.findIdx (fun run => index.toNat < run.stop) < l.runs.size := Nat.lt_of_le_of_lt from_ inside
    have after : index.toNat < l.runs[l.runs.findIdx fun run => index.toNat < run.stop].stop := by
      simpa using Array.findIdx_getElem (w := found)
    have later : l.runs[l.runs.findIdx fun run => index.toNat < run.stop].stop ≤ l.runs[place].stop := by
      rcases Nat.eq_or_lt_of_le from_ with same | behind
      · simp only [same, Nat.le_refl]
      · exact Nat.le_of_lt (Array.pairwise_iff_getElem.mp ascending _ place found inside behind)
    rw [Array.getElem?_eq_getElem inside]
    simpa using Nat.lt_of_lt_of_le after later

/-! ## Refinement -/

/-- A run that would make the locals too many is not appended. -/
theorem size_attempt_le {l : Locals} (few : l.size ≤ maxLocals) (run : UInt32 × ValueType) :
    (l.attempt run).size ≤ maxLocals := by
  unfold attempt
  split
  · rename_i l' done
    obtain ⟨fits, rfl⟩ := push_ok_iff.mp done
    rwa [size_collect, List.length_replicate]
  · exact few

theorem size_foldl_attempt_le {l : Locals} (few : l.size ≤ maxLocals) (runs : List (UInt32 × ValueType)) :
    (runs.foldl attempt l).size ≤ maxLocals := by
  induction runs generalizing l with
  | nil => exact few
  | cons run rest ih => exact ih (size_attempt_le few run)

theorem attempt_of_error {l : Locals} {run : UInt32 × ValueType} {v : Violation} (failed : l.push run.1 run.2 = .error v) :
    l.attempt run = l := by
  rw [attempt, failed]

/-- Runs refine the flat list of types. From parameters that are not too many, and after any runs, a further run is
rejected exactly if it would make the list longer than the limit, and then leaves the locals as they are; number,
emptiness and entries, found run by run or by halving, are those of the list; and two such locals are the same exactly
if their lists are. All stops are within the limit, so that 32 bits hold them. -/
theorem built_refines_flat (params : List ValueType) (runs : List (UInt32 × ValueType))
    (few : params.length ≤ maxLocals) :
    (∀ count type v, (built params runs).push count type = .error v ↔
      maxLocals < (flat params runs).length + count.toNat ∧
        v = .tooManyLocals ((flat params runs).length + count.toNat)) ∧
    (∀ count type v, (built params runs).push count type = .error v →
      built params (runs ++ [(count, type)]) = built params runs) ∧
    ((built params runs).size = (flat params runs).length ∧ (flat params runs).length ≤ maxLocals ∧
      ∀ run ∈ (built params runs).runs, run.stop ≤ maxLocals) ∧
    ((built params runs).isEmpty = true ↔ flat params runs = []) ∧
    (∀ index : UInt32, (built params runs).get? index = (flat params runs)[index.toNat]? ∧
      (built params runs).search index = (flat params runs)[index.toNat]?) ∧
    ∀ params' runs', built params runs = built params' runs' ↔ flat params runs = flat params' runs' := by
  have collected := built_eq_ofTypes params runs
  have ascending : (built params runs).Ascending := collected ▸ ascending_ofTypes _
  have size : (built params runs).size = (flat params runs).length := by rw [collected, size_ofTypes]
  have bounded : (built params runs).size ≤ maxLocals := size_foldl_attempt_le (by rwa [size_ofTypes]) runs
  have entries (index : UInt32) : (built params runs).get? index = (flat params runs)[index.toNat]? := by
    rw [collected, get?_eq_lookup, lookup_ofTypes]
  refine ⟨fun count type v => ?_, fun count type v failed => ?_, ⟨size, size ▸ bounded, fun run member => ?_⟩, ?_,
    fun index => ⟨entries index, ?_⟩, fun params' runs' => ?_⟩
  · rw [push_error_iff, size]
  · rw [built, List.foldl_append]
    exact attempt_of_error failed
  · exact Nat.le_trans (ascending.stop_le_size member) bounded
  · rw [collected, isEmpty_ofTypes]
  · rw [ascending.search_eq_get?, entries]
  · rw [collected, built_eq_ofTypes, ofTypes_injective.eq_iff]

/-- Runs that are empty, that continue one another and, last, that go just beyond the limit. -/
theorem built_refines_flat_to_limit :
    [ValueType.i32, .i32].length ≤ maxLocals ∧
    built [.i32, .i32] [(0, .f64), (3, .i64), (1, .i64), (2, .v128), (4294967288, .v128)] =
      ⟨#[⟨2, .i32⟩, ⟨6, .i64⟩, ⟨8, .v128⟩]⟩ ∧
    (built [.i32, .i32] [(0, .f64), (3, .i64), (1, .i64), (2, .v128), (4294967288, .v128)]).search 5 = some .i64 ∧
    (built [.i32, .i32] [(0, .f64), (3, .i64), (1, .i64), (2, .v128), (4294967288, .v128)]).push 4294967288 .v128 =
      .error (.tooManyLocals 4294967296) := by
  have few : [ValueType.i32, .i32].length ≤ maxLocals := by decide
  obtain ⟨rejects, _, _, _, entries, _⟩ :=
    built_refines_flat [.i32, .i32] [(0, .f64), (3, .i64), (1, .i64), (2, .v128), (4294967288, .v128)] few
  exact ⟨few, by decide, (entries 5).2, (rejects _ _ _).mpr (by decide)⟩

end Locals

end Wasm
