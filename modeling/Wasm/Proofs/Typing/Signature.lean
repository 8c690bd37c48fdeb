import Wasm.Typing.Signature
import Wasm.Proofs.Outcome
import Wasm.Proofs.Typing.Judgement

/-! # Signatures and typing rules

The checks of immediates succeed exactly where the typing rules have a premise. The signature computed for a
plain instruction is therefore the one that its typing rule gives, and the same holds of blocks.
-/

namespace Wasm

theorem RefType.ofTag?_some_iff {tag : UInt8} {t : RefType} : ofTag? tag = some t ↔ tag = t.tag := by
  constructor
  · intro found
    unfold ofTag? at found
    split at found
    · cases found; rfl
    · cases found; rfl
    · cases found
  · rintro rfl
    cases t <;> rfl

theorem ValueType.ofTag?_some_iff {tag : UInt8} {t : ValueType} : ofTag? tag = some t ↔ tag = t.tag := by
  constructor
  · intro found
    unfold ofTag? at found
    split at found
    case h_6 =>
      obtain ⟨r, legal, rfl⟩ := Option.map_eq_some_iff.mp found
      exact RefType.ofTag?_some_iff.mp legal
    all_goals cases found; rfl
  · rintro rfl
    exact ofTag?_tag t

@[simp] theorem RefType.check_ok_iff {tag : UInt8} {t : RefType} : check tag = .ok t ↔ tag = t.tag := by
  rw [← ofTag?_some_iff]
  unfold check
  cases ofTag? tag <;> simp

@[simp] theorem ValueType.check_ok_iff {tag : UInt8} {t : ValueType} : check tag = .ok t ↔ tag = t.tag := by
  rw [← ofTag?_some_iff]
  unfold check
  cases ofTag? tag <;> simp

namespace IndexSpace

variable {s : IndexSpace}

@[simp] theorem find_ok_iff {α : Type} {kind : IndexKind} {entries : Array α} {index : UInt32} {a : α} :
    find kind entries index = .ok a ↔ entries[index.toNat]? = some a := by
  unfold find
  cases entries[index.toNat]? <;> simp

theorem function_ok_iff {func : UInt32} {type : FuncType} :
    s.function func = .ok type ↔
      ∃ index, s.functions[func.toNat]? = some index ∧ s.types[index.toNat]? = some type := by
  simp only [function, IndexSpace.type, Verdict.bind_ok_iff, find_ok_iff]

theorem checkData_ok_iff {data : UInt32} {u : Unit} :
    s.checkData data = .ok u ↔ ∃ count, s.dataCount = some count ∧ data < count := by
  unfold checkData
  cases s.dataCount with
  | none => simp
  | some count => by_cases below : data < count <;> simp [below]

end IndexSpace

namespace Scope

variable {Γ : Scope}

theorem function_ok_iff {func : UInt32} {type : FuncType} :
    Γ.space.function func = .ok type ↔ Γ.HasFunction func type := IndexSpace.function_ok_iff

theorem type_ok_iff {index : UInt32} {type : FuncType} :
    Γ.space.type index = .ok type ↔ Γ.HasSignature index type := IndexSpace.find_ok_iff

theorem element_ok_iff {elem : UInt32} {type : RefType} :
    Γ.space.element elem = .ok type ↔ Γ.HasElement elem type := IndexSpace.find_ok_iff

theorem checkData_ok_iff {data : UInt32} {u : Unit} : Γ.space.checkData data = .ok u ↔ Γ.HasData data :=
  IndexSpace.checkData_ok_iff

theorem tableElement_ok_iff {table : UInt32} {element : RefType} :
    Γ.tableElement table = .ok element ↔ Γ.HasTable table element := by
  simp only [tableElement, IndexSpace.table, Verdict.bind_ok_iff, IndexSpace.find_ok_iff,
    Verdict.pure_ok_iff, HasTable]
  constructor
  · rintro ⟨t, found, rfl⟩
    exact ⟨t.limits, found⟩
  · rintro ⟨limits, found⟩
    exact ⟨⟨element, limits⟩, found, rfl⟩

theorem localType_ok_iff {index : UInt32} {t : ValueType} :
    Γ.localType index = .ok t ↔ Γ.HasLocal index t := by
  have first : Γ.locals.get? index = some t ↔ Γ.HasLocal index t := by
    simp only [Locals.get?, HasLocal, Option.map_eq_some_iff, ← Array.find?_toList, List.find?_eq_some_iff_append,
      decide_eq_true_eq, Bool.not_eq_true', decide_eq_false_iff_not, Nat.not_lt]
    constructor
    · rintro ⟨run, ⟨inside, before, after, split, passed⟩, same⟩
      exact ⟨before, run, after, split, passed, inside, same⟩
    · rintro ⟨before, run, after, split, passed, inside, same⟩
      exact ⟨run, ⟨inside, before, after, split, passed⟩, same⟩
  rw [← first]
  unfold localType
  cases Γ.locals.get? index <;> simp

theorem global_ok_iff {index : UInt32} {g : GlobalType} :
    Γ.global index = .ok g ↔ Γ.HasGlobal index g.value g.isMutable := by
  unfold Scope.global HasGlobal IndexSpace.global
  by_cases visible : index.toNat < Γ.visibleGlobals <;> simp [visible]

theorem checkMemory_ok_iff {u : Unit} : Γ.checkMemory = .ok u ↔ Γ.HasMemory := by
  simp only [checkMemory, IndexSpace.memory, Verdict.bind_ok_iff, IndexSpace.find_ok_iff,
    Verdict.pure_ok_iff, and_true, HasMemory]
  constructor
  · rintro ⟨limits, found⟩
    exact (Array.getElem?_eq_some_iff.mp found).1
  · intro present
    exact ⟨Γ.space.memories[0], Array.getElem?_eq_getElem present⟩

theorem checkReference_ok_iff {func : UInt32} {u : Unit} :
    Γ.checkReference func = .ok u ↔ Γ.CanReference func := by
  simp only [checkReference, Verdict.bind_ok_iff, function_ok_iff, CanReference]
  cases Γ.declared with
  | none => simp
  | some refs =>
    by_cases member : refs.contains func
    · simp [← Std.TreeSet.contains_iff_mem, member]
    · simp [← Std.TreeSet.contains_iff_mem, member]

end Scope

theorem MemArg.checkAlignment_ok_iff {arg : MemArg} {natural : UInt32} {u : Unit} :
    arg.checkAlignment natural = .ok u ↔ arg.align ≤ natural := by
  unfold checkAlignment
  by_cases above : natural < arg.align
  · simp [above]
  · simp [above, UInt32.not_lt.mp above]

theorem Scope.checkAccess_ok_iff {Γ : Scope} {arg : MemArg} {natural : UInt32} {u : Unit} :
    Γ.checkAccess arg natural = .ok u ↔ Γ.HasMemory ∧ arg.align ≤ natural := by
  simp only [checkAccess, Verdict.bind_ok_iff, checkMemory_ok_iff, MemArg.checkAlignment_ok_iff, exists_const]

theorem checkLane_ok_iff {lane lanes : UInt8} {u : Unit} : checkLane lane lanes = .ok u ↔ lane < lanes := by
  unfold checkLane
  by_cases inRange : lane < lanes <;> simp [inRange]

theorem checkLanes_ok_iff {lanes : UInt8} {chosen : List UInt8} {u : Unit} :
    checkLanes lanes chosen = .ok u ↔ ∀ lane ∈ chosen, lane < lanes := by
  induction chosen with
  | nil => simp [checkLanes]
  | cons lane rest ih =>
    simp only [checkLanes, Verdict.bind_ok_iff, checkLane_ok_iff, ih, List.forall_mem_cons, exists_const]

/-- A rule that is broken ends a check. -/
theorem Verdict.guard_ok_iff {α β : Type} {p : Prop} [Decidable p] {v : Violation} {f : α → Verdict β}
    {x : Verdict β} {b : β} :
    (if p then throw v >>= f else x) = .ok b ↔ ¬ p ∧ x = .ok b := by
  by_cases broken : p <;> simp [broken, Verdict.bind_ok_iff]

/-- A signature that was found is what the typing rule of its instruction says. -/
theorem Scope.hasType_of_signature {Γ : Scope} {op : Plain} {type : FuncType}
    (found : Γ.signature op = .ok type) : op.HasType Γ type.params type.results := by
  unfold signature at found
  cases op <;> dsimp only at found <;>
    try simp only [Verdict.bind_ok_iff, Verdict.guard_ok_iff, Verdict.pure_ok_iff, tableElement_ok_iff,
      function_ok_iff, type_ok_iff, element_ok_iff, checkData_ok_iff, localType_ok_iff, global_ok_iff,
      checkMemory_ok_iff, checkReference_ok_iff, checkAccess_ok_iff, checkLanes_ok_iff,
      RefType.check_ok_iff, exists_const] at found
  case nop => subst found; exact .nop
  case call => exact .call found
  case callIndirect =>
    obtain ⟨element, callable, same, t, known, rfl⟩ := found
    obtain rfl := not_not.mp same
    exact .callIndirect callable known
  case refNull => obtain ⟨t, rfl, rfl⟩ := found; exact .refNull t
  case refFunc => obtain ⟨known, rfl⟩ := found; exact .refFunc known
  case selectTyped tags =>
    split at found
    · simp only [Verdict.bind_ok_iff, ValueType.check_ok_iff, Verdict.pure_ok_iff] at found
      obtain ⟨t, rfl, rfl⟩ := found
      exact .selectTyped t
    · cases found
  case localGet => obtain ⟨t, known, rfl⟩ := found; exact .localGet known
  case localSet => obtain ⟨t, known, rfl⟩ := found; exact .localSet known
  case localTee => obtain ⟨t, known, rfl⟩ := found; exact .localTee known
  case globalGet => obtain ⟨g, known, rfl⟩ := found; exact .globalGet known
  case globalSet =>
    obtain ⟨⟨value, isMutable⟩, known, settable, rfl⟩ := found
    obtain rfl := eq_true_of_ne_false settable
    exact .globalSet known
  case tableGet => obtain ⟨t, known, rfl⟩ := found; exact .tableGet known
  case tableSet => obtain ⟨t, known, rfl⟩ := found; exact .tableSet known
  case tableInit =>
    obtain ⟨t, target, e, source, same, rfl⟩ := found
    obtain rfl := not_not.mp same
    exact .tableInit target source
  case elemDrop => obtain ⟨t, known, rfl⟩ := found; exact .elemDrop known
  case tableCopy =>
    obtain ⟨t, target, s, source, same, rfl⟩ := found
    obtain rfl := not_not.mp same
    exact .tableCopy target source
  case tableGrow => obtain ⟨t, known, rfl⟩ := found; exact .tableGrow known
  case tableSize => obtain ⟨t, known, rfl⟩ := found; exact .tableSize known
  case tableFill => obtain ⟨t, known, rfl⟩ := found; exact .tableFill known
  case load op arg =>
    obtain ⟨⟨memory, aligned⟩, rfl⟩ := found
    obtain ⟨extent, loads⟩ := op.loads_result
    exact .load memory loads (MemArg.aligned_iff.mpr (loads.table.1 ▸ aligned))
  case store op arg =>
    obtain ⟨⟨memory, aligned⟩, rfl⟩ := found
    obtain ⟨extent, stores⟩ := op.stores_operand
    exact .store memory stores (MemArg.aligned_iff.mpr (stores.table.1 ▸ aligned))
  case memorySize => obtain ⟨memory, rfl⟩ := found; exact .memorySize memory
  case memoryGrow => obtain ⟨memory, rfl⟩ := found; exact .memoryGrow memory
  case memoryInit => obtain ⟨memory, known, rfl⟩ := found; exact .memoryInit memory known
  case dataDrop => obtain ⟨known, rfl⟩ := found; exact .dataDrop known
  case memoryCopy => obtain ⟨memory, rfl⟩ := found; exact .memoryCopy memory
  case memoryFill => obtain ⟨memory, rfl⟩ := found; exact .memoryFill memory
  case i32Const value => subst found; exact .i32Const value
  case i64Const value => subst found; exact .i64Const value
  case f32Const bits => subst found; exact .f32Const bits
  case f64Const bits => subst found; exact .f64Const bits
  case numeric op => subst found; exact .numeric op.hasType_signature
  case v128Const bytes => subst found; exact .v128Const bytes
  case shuffle => obtain ⟨inRange, rfl⟩ := found; exact .shuffle inRange
  -- A row of the table of vector operations is that of one kind of operation.
  case vectorMemory =>
    split at found <;> simp only [Verdict.bind_ok_iff, checkAccess_ok_iff, Verdict.pure_ok_iff,
      Verdict.throw_ok_iff, exists_const] at found
    all_goals
      obtain ⟨⟨memory, aligned⟩, rfl⟩ := found
      obtain ⟨kind, assigned, row⟩ := VectorOp.kind_of_signature ‹_›
      cases kind <;> cases row
    · exact .vectorLoad assigned memory (MemArg.aligned_iff.mpr aligned)
    · exact .vectorStore assigned memory (MemArg.aligned_iff.mpr aligned)
  case vectorMemoryLane =>
    split at found <;> simp only [Verdict.bind_ok_iff, checkAccess_ok_iff, checkLane_ok_iff,
      Verdict.pure_ok_iff, Verdict.throw_ok_iff, exists_const] at found
    all_goals
      obtain ⟨⟨memory, aligned⟩, inRange, rfl⟩ := found
      obtain ⟨kind, assigned, row⟩ := VectorOp.kind_of_signature ‹_›
      cases kind <;> cases row
    · exact .loadLane assigned memory (MemArg.aligned_iff.mpr aligned) (Extent.hasLane_iff.mpr inRange)
    · exact .storeLane assigned memory (MemArg.aligned_iff.mpr aligned) (Extent.hasLane_iff.mpr inRange)
  case vectorLane =>
    split at found <;> simp only [Verdict.bind_ok_iff, checkLane_ok_iff, Verdict.pure_ok_iff,
      Verdict.throw_ok_iff, exists_const] at found
    all_goals
      obtain ⟨inRange, rfl⟩ := found
      obtain ⟨kind, assigned, row⟩ := VectorOp.kind_of_signature ‹_›
      cases kind <;> cases row
    · exact .extractLane assigned inRange
    · exact .replaceLane assigned inRange
  case vector =>
    split at found
    · cases found
    · rename_i carries
      split at found
      · cases found
        obtain ⟨kind, assigned, typed⟩ := VectorOp.fixed_iff.mp ⟨‹_›, not_or.mp carries⟩
        exact .vector assigned typed
      · cases found

/-- An instruction that a typing rule admits has the signature that the rule says. -/
theorem Plain.HasType.signature {Γ : Scope} {op : Plain} {ts us : List ValueType}
    (typed : op.HasType Γ ts us) : Γ.signature op = .ok ⟨ts, us⟩ := by
  unfold Scope.signature
  cases typed <;> dsimp only
  case numeric typed => rw [typed.signature]; rfl
  case vector assigned typed =>
    obtain ⟨row, notConst, notShuffle⟩ := VectorOp.fixed_iff.mpr ⟨_, assigned, typed⟩
    simp [row, notConst, notShuffle]
  -- The immediates of the other vector operations are read off the table of signatures.
  case extractLane assigned inRange | replaceLane assigned inRange =>
    simp only [VectorOp.signature?_of_kind assigned, VectorKind.row, Verdict.bind_ok_iff, checkLane_ok_iff,
      Verdict.pure_ok_iff, exists_const]
    exact ⟨inRange, trivial⟩
  case vectorLoad assigned memory aligned | vectorStore assigned memory aligned =>
    simp only [VectorOp.signature?_of_kind assigned, VectorKind.row, Verdict.bind_ok_iff, Scope.checkAccess_ok_iff,
      Verdict.pure_ok_iff, exists_const]
    exact ⟨⟨memory, MemArg.aligned_iff.mp aligned⟩, trivial⟩
  case loadLane assigned memory aligned inRange | storeLane assigned memory aligned inRange =>
    simp only [VectorOp.signature?_of_kind assigned, VectorKind.row, Verdict.bind_ok_iff, Scope.checkAccess_ok_iff,
      checkLane_ok_iff, Verdict.pure_ok_iff, exists_const]
    exact ⟨⟨memory, MemArg.aligned_iff.mp aligned⟩, Extent.hasLane_iff.mp inRange, trivial⟩
  all_goals simp only [Verdict.bind_ok_iff, Verdict.guard_ok_iff, Verdict.pure_ok_iff,
    Scope.tableElement_ok_iff, Scope.function_ok_iff, Scope.type_ok_iff, Scope.element_ok_iff,
    Scope.checkData_ok_iff, Scope.localType_ok_iff, Scope.global_ok_iff, Scope.checkMemory_ok_iff,
    Scope.checkReference_ok_iff, Scope.checkAccess_ok_iff, checkLanes_ok_iff, RefType.check_ok_iff,
    ValueType.check_ok_iff, exists_const, and_true]
  case call known => exact known
  case callIndirect callable known => exact ⟨.func, callable, not_not.mpr rfl, _, known, rfl⟩
  case refNull t => exact ⟨t, rfl, rfl⟩
  case selectTyped t => exact ⟨t, rfl, rfl⟩
  case globalGet known => exact ⟨⟨_, _⟩, known, rfl⟩
  case globalSet known => exact ⟨⟨_, _⟩, known, Bool.noConfusion, rfl⟩
  case tableCopy t target source => exact ⟨t, target, t, source, not_not.mpr rfl⟩
  case tableInit t target source => exact ⟨t, target, t, source, not_not.mpr rfl⟩
  case localGet known | localSet known | localTee known => exact ⟨_, known, rfl⟩
  case tableGet known | tableSet known | tableGrow known | tableFill known => exact ⟨_, known, rfl⟩
  case tableSize known | elemDrop known => exact ⟨_, known⟩
  case refFunc known | dataDrop known => exact known
  case load memory loads aligned =>
    obtain ⟨natural, rfl⟩ := loads.table
    exact ⟨⟨memory, natural ▸ MemArg.aligned_iff.mp aligned⟩, rfl⟩
  case store memory stores aligned =>
    obtain ⟨natural, rfl⟩ := stores.table
    exact ⟨⟨memory, natural ▸ MemArg.aligned_iff.mp aligned⟩, rfl⟩
  case memoryInit memory known => exact ⟨memory, known⟩
  case memorySize memory | memoryGrow memory | memoryFill memory | memoryCopy memory => exact memory
  case shuffle inRange => exact inRange

theorem Scope.signature_ok_iff {Γ : Scope} {op : Plain} {type : FuncType} :
    Γ.signature op = .ok type ↔ op.HasType Γ type.params type.results :=
  ⟨hasType_of_signature, Plain.HasType.signature⟩

/-- The signature of a block is what its typing rule says. -/
theorem Scope.blockSignature_ok_iff {Γ : Scope} {block : BlockType} {type : FuncType} :
    Γ.blockSignature block = .ok type ↔ block.HasType Γ type.params type.results := by
  constructor
  · intro found
    cases block with
    | empty => cases found; exact .empty
    | value tag =>
      simp only [blockSignature, Verdict.bind_ok_iff, ValueType.check_ok_iff, Verdict.pure_ok_iff] at found
      obtain ⟨t, rfl, rfl⟩ := found
      exact .value t
    | indexed index => exact .indexed (type_ok_iff.mp found)
  · obtain ⟨ts, us⟩ := type
    rintro (_ | t | known)
    · rfl
    · exact Verdict.bind_ok_iff.mpr ⟨t, ValueType.check_ok_iff.mpr rfl, rfl⟩
    · exact type_ok_iff.mpr known

end Wasm
