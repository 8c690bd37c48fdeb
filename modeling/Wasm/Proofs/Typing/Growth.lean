import Wasm.Proofs.Typing.Moves

/-! # Scopes that grow

Index spaces only ever get entries at their end. An index that names something goes on naming it, and so a check of
immediates that succeeded succeeds again, with the same signature. What a checker makes of operands and blocks depends on
the scope through signatures alone. Code that was accepted is therefore accepted in any wider scope, and every
instruction of it leads to the same state there.
-/

namespace Wasm

/-! ## Index spaces -/

/-- The entries are those of `S` with others behind them, and data segments that could be named still can. -/
structure IndexSpace.Extends (S T : IndexSpace) : Prop where
  types : S.types.toList <+: T.types.toList
  functions : S.functions.toList <+: T.functions.toList
  tables : S.tables.toList <+: T.tables.toList
  memories : S.memories.toList <+: T.memories.toList
  globals : S.globals.toList <+: T.globals.toList
  elements : S.elements.toList <+: T.elements.toList
  dataCount : ∀ count ∈ S.dataCount, ∃ later ∈ T.dataCount, count ≤ later

namespace IndexSpace

theorem found_of_prefix {α : Type} {entries later : Array α} {n : Nat} {a : α}
    (grown : entries.toList <+: later.toList) (found : entries[n]? = some a) : later[n]? = some a := by
  rw [← Array.getElem?_toList] at found ⊢
  obtain ⟨below, rfl⟩ := List.getElem?_eq_some_iff.mp found
  exact List.prefix_iff_getElem?.mp grown n below

theorem size_le_of_prefix {α : Type} {entries later : Array α} (grown : entries.toList <+: later.toList) :
    entries.size ≤ later.size := by
  simpa only [Array.length_toList] using grown.length_le

end IndexSpace

/-! ## Scopes -/

/-- A scope that shows all that `Γ` shows and restricts references no more. -/
structure Scope.Widens (Γ Δ : Scope) : Prop where
  space : Γ.space.Extends Δ.space
  globals : Γ.visibleGlobals ≤ Δ.visibleGlobals
  locals : Δ.locals = Γ.locals
  returns : Δ.returns = Γ.returns
  declared : ∀ later ∈ Δ.declared, ∃ refs ∈ Γ.declared, ∀ func ∈ refs, func ∈ later

theorem IndexSpace.Extends.function_widens {S T : IndexSpace} {refs later : FuncRefs} (grown : S.Extends T)
    (more : ∀ func ∈ refs, func ∈ later) (results : List ValueType) (locals : Locals) :
    (Scope.function S results locals refs).Widens (.function T results locals later) where
  space := grown
  globals := IndexSpace.size_le_of_prefix grown.globals
  locals := rfl
  returns := rfl
  declared := by
    rintro _ ⟨⟩
    exact ⟨refs, rfl, more⟩

theorem IndexSpace.Extends.constant_widens {S T : IndexSpace} (grown : S.Extends T)
    (imported : S.importedGlobals ≤ T.importedGlobals) : (Scope.constant S).Widens (.constant T) where
  space := grown
  globals := imported
  locals := rfl
  returns := rfl
  declared := by
    rintro _ ⟨⟩

namespace Scope.Widens

variable {Γ Δ : Scope} (wider : Γ.Widens Δ)
include wider

theorem hasMemory (known : Γ.HasMemory) : Δ.HasMemory :=
  Nat.lt_of_lt_of_le known (IndexSpace.size_le_of_prefix wider.space.memories)

theorem hasSignature {index : UInt32} {type : FuncType} (known : Γ.HasSignature index type) :
    Δ.HasSignature index type :=
  IndexSpace.found_of_prefix wider.space.types known

theorem hasFunction {func : UInt32} {type : FuncType} (known : Γ.HasFunction func type) : Δ.HasFunction func type := by
  obtain ⟨index, found, typed⟩ := known
  exact ⟨index, IndexSpace.found_of_prefix wider.space.functions found, wider.hasSignature typed⟩

theorem hasTable {table : UInt32} {element : RefType} (known : Γ.HasTable table element) : Δ.HasTable table element := by
  obtain ⟨limits, found⟩ := known
  exact ⟨limits, IndexSpace.found_of_prefix wider.space.tables found⟩

theorem hasGlobal {index : UInt32} {value : ValueType} {isMutable : Bool} (known : Γ.HasGlobal index value isMutable) :
    Δ.HasGlobal index value isMutable :=
  ⟨Nat.lt_of_lt_of_le known.1 wider.globals, IndexSpace.found_of_prefix wider.space.globals known.2⟩

theorem hasElement {elem : UInt32} {type : RefType} (known : Γ.HasElement elem type) : Δ.HasElement elem type :=
  IndexSpace.found_of_prefix wider.space.elements known

theorem hasData {data : UInt32} (known : Γ.HasData data) : Δ.HasData data := by
  obtain ⟨count, declared, below⟩ := known
  obtain ⟨later, announced, more⟩ := wider.space.dataCount count declared
  exact ⟨later, announced, UInt32.lt_of_lt_of_le below more⟩

theorem hasLocal {index : UInt32} {type : ValueType} (known : Γ.HasLocal index type) : Δ.HasLocal index type := by
  unfold HasLocal
  rw [wider.locals]
  exact known

theorem canReference {func : UInt32} (known : Γ.CanReference func) : Δ.CanReference func := by
  obtain ⟨⟨type, found⟩, declared⟩ := known
  refine ⟨⟨type, wider.hasFunction found⟩, fun later restricts => ?_⟩
  obtain ⟨refs, before, more⟩ := wider.declared later restricts
  exact more func (declared refs before)

end Scope.Widens

/-! ## Signatures -/

/-- A plain instruction keeps its type. -/
theorem Plain.HasType.widen {Γ Δ : Scope} (wider : Γ.Widens Δ) {op : Plain} {ts us : List ValueType}
    (typed : op.HasType Γ ts us) : op.HasType Δ ts us := by
  cases typed with
  | call known => exact .call (wider.hasFunction known)
  | callIndirect callable known => exact .callIndirect (wider.hasTable callable) (wider.hasSignature known)
  | refFunc known => exact .refFunc (wider.canReference known)
  | localGet known => exact .localGet (wider.hasLocal known)
  | localSet known => exact .localSet (wider.hasLocal known)
  | localTee known => exact .localTee (wider.hasLocal known)
  | globalGet known => exact .globalGet (wider.hasGlobal known)
  | globalSet settable => exact .globalSet (wider.hasGlobal settable)
  | tableGet known => exact .tableGet (wider.hasTable known)
  | tableSet known => exact .tableSet (wider.hasTable known)
  | tableSize known => exact .tableSize (wider.hasTable known)
  | tableGrow known => exact .tableGrow (wider.hasTable known)
  | tableFill known => exact .tableFill (wider.hasTable known)
  | tableCopy target source => exact .tableCopy (wider.hasTable target) (wider.hasTable source)
  | tableInit target source => exact .tableInit (wider.hasTable target) (wider.hasElement source)
  | elemDrop known => exact .elemDrop (wider.hasElement known)
  | load memory loads aligned => exact .load (wider.hasMemory memory) loads aligned
  | store memory stores aligned => exact .store (wider.hasMemory memory) stores aligned
  | memorySize memory => exact .memorySize (wider.hasMemory memory)
  | memoryGrow memory => exact .memoryGrow (wider.hasMemory memory)
  | memoryFill memory => exact .memoryFill (wider.hasMemory memory)
  | memoryCopy memory => exact .memoryCopy (wider.hasMemory memory)
  | memoryInit memory known => exact .memoryInit (wider.hasMemory memory) (wider.hasData known)
  | dataDrop known => exact .dataDrop (wider.hasData known)
  | vectorLoad assigned memory aligned => exact .vectorLoad assigned (wider.hasMemory memory) aligned
  | vectorStore assigned memory aligned => exact .vectorStore assigned (wider.hasMemory memory) aligned
  | loadLane assigned memory aligned inRange => exact .loadLane assigned (wider.hasMemory memory) aligned inRange
  | storeLane assigned memory aligned inRange => exact .storeLane assigned (wider.hasMemory memory) aligned inRange
  -- the others name nothing that a scope holds
  | numeric typed => exact .numeric typed
  | vector assigned typed => exact .vector assigned typed
  | extractLane assigned inRange => exact .extractLane assigned inRange
  | replaceLane assigned inRange => exact .replaceLane assigned inRange
  | shuffle inRange => exact .shuffle inRange
  | nop | refNull | selectTyped | i32Const | i64Const | f32Const | f64Const | v128Const => constructor

namespace Scope.Widens

variable {Γ Δ : Scope} {type : FuncType}

theorem signature (wider : Γ.Widens Δ) {op : Plain} (found : Γ.signature op = .ok type) : Δ.signature op = .ok type := by
  apply signature_ok_iff.mpr
  exact (signature_ok_iff.mp found).widen wider

theorem blockSignature (wider : Γ.Widens Δ) {block : BlockType} (found : Γ.blockSignature block = .ok type) :
    Δ.blockSignature block = .ok type := by
  cases block with
  | empty | value => exact found
  | indexed index =>
    apply type_ok_iff.mpr
    exact wider.hasSignature (type_ok_iff.mp found)

end Scope.Widens

/-! ## Steps and runs -/

namespace Check

variable {α β : Type}

/-- What succeeds as `m` does so as `n` too, with the same answer and the same state. -/
def Survives (m n : Check α) : Prop := ∀ ⦃c a c'⦄, m c = .ok a c' → n c = .ok a c'

theorem Survives.rfl {m : Check α} : m.Survives m := fun _ _ _ done => done

theorem Survives.bind {m n : Check α} {k l : α → Check β} (first : m.Survives n) (second : ∀ a, (k a).Survives (l a)) :
    (m >>= k).Survives (n >>= l) := by
  intro c b c' done
  obtain ⟨a, d, one, two⟩ := Outcome.bind_ok_iff.mp done
  apply Outcome.bind_ok_iff.mpr
  exact ⟨a, d, first one, second a two⟩

theorem Survives.lift {x y : Verdict α} (kept : ∀ a, x = .ok a → y = .ok a) :
    (liftM x : Check α).Survives (liftM y) := by
  intro c a c' done
  obtain ⟨found, rfl⟩ := Outcome.lift_ok_iff.mp done
  exact Outcome.lift_ok_iff.mpr ⟨kept a found, Eq.refl _⟩

variable {Γ Δ : Scope}

/-- Only blocks, `return_` and plain instructions look at the scope. -/
theorem survives_instruction (wider : Γ.Widens Δ) (i : Instruction) : (instruction Γ i).Survives (instruction Δ i) := by
  have opened (kind : FrameKind) (type : BlockType) : (openBlock Γ kind type).Survives (openBlock Δ kind type) :=
    (Survives.lift fun _ => wider.blockSignature).bind fun _ => .rfl
  cases i with
  | block type => exact opened .block type
  | loop type => exact opened .loop type
  | if_ type => exact opened .if_ type
  | return_ =>
    show (returnFrom Γ).Survives (returnFrom Δ)
    rw [returnFrom, returnFrom, wider.returns]
    exact .rfl
  | plain op => exact (Survives.lift fun _ => wider.signature).bind fun _ => .rfl
  | _ => exact .rfl

theorem survives_step (wider : Γ.Widens Δ) (i : Instruction) : (step Γ i).Survives (step Δ i) := by
  intro c u c' done
  unfold step at done ⊢
  split at done
  · cases done
  · rename_i going
    rw [if_neg going]
    exact survives_instruction wider i done

theorem survives_all (wider : Γ.Widens Δ) (is : List Instruction) : (all Γ is).Survives (all Δ is) := by
  induction is with
  | nil => exact .rfl
  | cons i rest ih => exact (survives_step wider i).bind fun _ => ih

/-- Instructions that were accepted stay accepted when the index spaces grow and more functions are declared, and after
each of them the open blocks with their operands are the same. -/
theorem acceptance_survives_growth {S T : IndexSpace} {refs later : FuncRefs} (grown : S.Extends T)
    (more : ∀ func ∈ refs, func ∈ later) (locals : Locals) (results : List ValueType) (is : List Instruction)
    (accepted : ∃ c, all (.function S results locals refs) is (.start results) = .ok () c) :
    ∀ before, before <+: is →
      ∃ c, all (.function S results locals refs) before (.start results) = .ok () c ∧
        all (.function T results locals later) before (.start results) = .ok () c := by
  rintro before ⟨rest, rfl⟩
  obtain ⟨c', done⟩ := accepted
  obtain ⟨c, first, -⟩ := all_append_ok_iff.mp done
  exact ⟨c, first, survives_all (grown.function_widens more results locals) before first⟩

/-- A body that names a type, a function, a global and a data segment, before and after another of each is added. -/
theorem acceptance_survives_growth_naming :
    let space : IndexSpace :=
      { types := #[⟨[.i32], [.i32]⟩], functions := #[0], globals := #[⟨.i64, true⟩], dataCount := some 1 }
    let larger := (((space.addType ⟨[], []⟩).addFunction 1).addGlobal ⟨.i32, false⟩).setDataCount 2
    let refs : FuncRefs := Std.TreeSet.empty.insert 0
    let body : List Instruction := [.plain (.refFunc 0), .drop, .plain (.i32Const 5), .block (.indexed 0),
      .plain (.call 0), .end_, .drop, .plain (.dataDrop 0), .plain (.globalGet 0), .end_]
    space.Extends larger ∧ ∃ c, all (.function space [.i64] {} refs) body (.start [.i64]) = .ok () c ∧
      all (.function larger [.i64] {} (refs.insert 1)) body (.start [.i64]) = .ok () c := by
  intro space larger refs body
  have grown : space.Extends larger := by
    constructor
    case dataCount =>
      rintro _ ⟨⟩
      exact ⟨2, rfl, by decide⟩
    all_goals decide
  have accepted : Outcome.isOk (all (.function space [.i64] {} refs) body (.start [.i64])) = true := by decide +kernel
  obtain ⟨_, c, done⟩ := Outcome.isOk_iff.mp accepted
  have more : ∀ func ∈ refs, func ∈ refs.insert 1 := fun func member => Std.TreeSet.mem_insert.mpr (.inr member)
  exact ⟨grown, acceptance_survives_growth grown more {} [.i64] body ⟨c, done⟩ body List.prefix_rfl⟩

end Check

end Wasm
