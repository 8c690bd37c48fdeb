import Wasm.Typing.Scope
import Wasm.Proofs.Typing.Operations

/-! # Structured code and its typing rules

Structured code is a tree: blocks hold the code between their opening and their `end_`. A typing rule says
what a piece of code takes and gives, from the types of its parts and the labels that enclose it. Types are
lists of value types, bottom operand first.

The rules mention no stack of open blocks and no operand of unknown type: code behind an instruction that
never falls through is typed like any other, from whatever operands suit it. Nor do they mention the tables
that instructions are checked with: what operations take and give is laid down apart from those.
-/

namespace Wasm

/-- Instructions that neither open nor close a block. -/
inductive Leaf where
  | unreachable
  | br (label : UInt32)
  | brIf (label : UInt32)
  | brTable (labels : List UInt32) (default : UInt32)
  | return_
  | refIsNull
  | drop
  | select
  | plain (op : Plain)
deriving DecidableEq, Repr

/-- A sequence of instructions with all its blocks closed. -/
inductive Code where
  | nil
  | leaf (i : Leaf) (rest : Code)
  | block (type : BlockType) (inner rest : Code)
  | loop (type : BlockType) (inner rest : Code)
  /-- A conditional block without a second part. -/
  | if_ (type : BlockType) (inner rest : Code)
  | ifElse (type : BlockType) (inner other rest : Code)
deriving DecidableEq, Repr

namespace Leaf

def instruction : Leaf → Instruction
  | unreachable => .unreachable
  | br label => .br label
  | brIf label => .brIf label
  | brTable labels default => .brTable labels default
  | return_ => .return_
  | refIsNull => .refIsNull
  | drop => .drop
  | select => .select
  | plain op => .plain op

/-- Whether the code that follows can be reached. -/
def fallsThrough : Leaf → Bool
  | unreachable | br _ | brTable .. | return_ => false
  | brIf _ | refIsNull | drop | select | plain _ => true

end Leaf

namespace Code

/-- One instruction by itself. -/
def single (i : Leaf) : Code := .leaf i .nil

def append : Code → Code → Code
  | nil, b => b
  | leaf i rest, b => leaf i (rest.append b)
  | block type inner rest, b => block type inner (rest.append b)
  | loop type inner rest, b => loop type inner (rest.append b)
  | if_ type inner rest, b => if_ type inner (rest.append b)
  | ifElse type inner other rest, b => ifElse type inner other (rest.append b)

/-- The instructions of code with the marks that open, divide and close its blocks. -/
def flatten : Code → List Instruction
  | nil => []
  | leaf i rest => i.instruction :: rest.flatten
  | block type inner rest => .block type :: (inner.flatten ++ .end_ :: rest.flatten)
  | loop type inner rest => .loop type :: (inner.flatten ++ .end_ :: rest.flatten)
  | if_ type inner rest => .if_ type :: (inner.flatten ++ .end_ :: rest.flatten)
  | ifElse type inner other rest =>
    .if_ type :: (inner.flatten ++ .else_ :: (other.flatten ++ .end_ :: rest.flatten))

/-- The code without what stands, in the same block, behind an instruction that never falls through. -/
def live : Code → Code
  | nil => nil
  | leaf i rest => leaf i (if i.fallsThrough then rest.live else nil)
  | block type inner rest => block type inner.live rest.live
  | loop type inner rest => loop type inner.live rest.live
  | if_ type inner rest => if_ type inner.live rest.live
  | ifElse type inner other rest => ifElse type inner.live other.live rest.live

theorem flatten_append (a b : Code) : (a.append b).flatten = a.flatten ++ b.flatten := by
  induction a with
  | nil => rfl
  | leaf i rest ih => simp only [append, flatten, ih, List.cons_append]
  | block type inner rest _ ih => simp only [append, flatten, ih, List.cons_append, List.append_assoc]
  | loop type inner rest _ ih => simp only [append, flatten, ih, List.cons_append, List.append_assoc]
  | if_ type inner rest _ ih => simp only [append, flatten, ih, List.cons_append, List.append_assoc]
  | ifElse type inner other rest _ _ ih =>
    simp only [append, flatten, ih, List.cons_append, List.append_assoc]

end Code

namespace Scope

variable (Γ : Scope)

/-- Accesses go to the memory at index zero. -/
def HasMemory : Prop := 0 < Γ.space.memories.size

def HasSignature (index : UInt32) (type : FuncType) : Prop := Γ.space.types[index.toNat]? = some type

def HasFunction (func : UInt32) (type : FuncType) : Prop :=
  ∃ index, Γ.space.functions[func.toNat]? = some index ∧ Γ.HasSignature index type

def HasTable (table : UInt32) (element : RefType) : Prop :=
  ∃ limits, Γ.space.tables[table.toNat]? = some ⟨element, limits⟩

def HasGlobal (index : UInt32) (value : ValueType) (isMutable : Bool) : Prop :=
  index.toNat < Γ.visibleGlobals ∧ Γ.space.globals[index.toNat]? = some ⟨value, isMutable⟩

def HasElement (elem : UInt32) (type : RefType) : Prop := Γ.space.elements[elem.toNat]? = some type

/-- Data segments can be named once their number is declared. -/
def HasData (data : UInt32) : Prop := ∃ count, Γ.space.dataCount = some count ∧ data < count

/-- A local belongs to the first run that stops behind its index. -/
def HasLocal (index : UInt32) (type : ValueType) : Prop :=
  ∃ before run after, Γ.locals.runs.toList = before ++ run :: after ∧ (∀ r ∈ before, r.stop ≤ index.toNat) ∧
    index.toNat < run.stop ∧ run.type = type

/-- A function that exists and, where references are restricted, is declared. -/
def CanReference (func : UInt32) : Prop :=
  (∃ type, Γ.HasFunction func type) ∧ ∀ refs, Γ.declared = some refs → func ∈ refs

end Scope

/-- What a plain instruction takes and gives, where its immediates are legal. -/
inductive Plain.HasType (Γ : Scope) : Plain → List ValueType → List ValueType → Prop where
  | nop : HasType Γ .nop [] []
  | call {func type} (known : Γ.HasFunction func type) : HasType Γ (.call func) type.params type.results
  | callIndirect {index table type} (callable : Γ.HasTable table .func) (known : Γ.HasSignature index type) :
      HasType Γ (.callIndirect index table) (type.params ++ [.i32]) type.results
  | refNull (t : RefType) : HasType Γ (.refNull t.tag) [] [.ref t]
  | refFunc {func} (known : Γ.CanReference func) : HasType Γ (.refFunc func) [] [.funcref]
  | selectTyped (t : ValueType) : HasType Γ (.selectTyped [t.tag]) [t, t, .i32] [t]
  | localGet {index t} (known : Γ.HasLocal index t) : HasType Γ (.localGet index) [] [t]
  | localSet {index t} (known : Γ.HasLocal index t) : HasType Γ (.localSet index) [t] []
  | localTee {index t} (known : Γ.HasLocal index t) : HasType Γ (.localTee index) [t] [t]
  | globalGet {index t m} (known : Γ.HasGlobal index t m) : HasType Γ (.globalGet index) [] [t]
  | globalSet {index t} (settable : Γ.HasGlobal index t true) : HasType Γ (.globalSet index) [t] []
  | tableGet {table t} (known : Γ.HasTable table t) : HasType Γ (.tableGet table) [.i32] [.ref t]
  | tableSet {table t} (known : Γ.HasTable table t) : HasType Γ (.tableSet table) [.i32, .ref t] []
  | tableSize {table t} (known : Γ.HasTable table t) : HasType Γ (.tableSize table) [] [.i32]
  | tableGrow {table t} (known : Γ.HasTable table t) :
      HasType Γ (.tableGrow table) [.ref t, .i32] [.i32]
  | tableFill {table t} (known : Γ.HasTable table t) :
      HasType Γ (.tableFill table) [.i32, .ref t, .i32] []
  | tableCopy {dst src t} (target : Γ.HasTable dst t) (source : Γ.HasTable src t) :
      HasType Γ (.tableCopy dst src) [.i32, .i32, .i32] []
  | tableInit {elem table t} (target : Γ.HasTable table t) (source : Γ.HasElement elem t) :
      HasType Γ (.tableInit elem table) [.i32, .i32, .i32] []
  | elemDrop {elem t} (known : Γ.HasElement elem t) : HasType Γ (.elemDrop elem) [] []
  | load {op arg extent t} (memory : Γ.HasMemory) (loads : op.Loads extent t) (aligned : arg.Aligned extent) :
      HasType Γ (.load op arg) [.i32] [t]
  | store {op arg extent t} (memory : Γ.HasMemory) (stores : op.Stores extent t) (aligned : arg.Aligned extent) :
      HasType Γ (.store op arg) [.i32, t] []
  | memorySize (memory : Γ.HasMemory) : HasType Γ .memorySize [] [.i32]
  | memoryGrow (memory : Γ.HasMemory) : HasType Γ .memoryGrow [.i32] [.i32]
  | memoryFill (memory : Γ.HasMemory) : HasType Γ .memoryFill [.i32, .i32, .i32] []
  | memoryCopy (memory : Γ.HasMemory) : HasType Γ .memoryCopy [.i32, .i32, .i32] []
  | memoryInit {data} (memory : Γ.HasMemory) (known : Γ.HasData data) :
      HasType Γ (.memoryInit data) [.i32, .i32, .i32] []
  | dataDrop {data} (known : Γ.HasData data) : HasType Γ (.dataDrop data) [] []
  | i32Const (value : Int32) : HasType Γ (.i32Const value) [] [.i32]
  | i64Const (value : Int64) : HasType Γ (.i64Const value) [] [.i64]
  | f32Const (bits : UInt32) : HasType Γ (.f32Const bits) [] [.f32]
  | f64Const (bits : UInt64) : HasType Γ (.f64Const bits) [] [.f64]
  | numeric {op ts us} (typed : op.HasType ts us) : HasType Γ (.numeric op) ts us
  | v128Const (bytes : Vector UInt8 16) : HasType Γ (.v128Const bytes) [] [.v128]
  | shuffle {lanes : Vector UInt8 16} (inRange : ∀ lane ∈ lanes.toList, lane < 32) :
      HasType Γ (.shuffle lanes) [.v128, .v128] [.v128]
  | vector {sub kind ts us} (assigned : VectorOp.kind? sub.toNat = some kind) (typed : kind.HasType ts us) :
      HasType Γ (.vector sub) ts us
  | extractLane {sub lane shape} (assigned : VectorOp.kind? sub.toNat = some (.extract shape))
      (inRange : lane < shape.lanes) : HasType Γ (.vectorLane sub lane) [.v128] [shape.lane]
  | replaceLane {sub lane shape} (assigned : VectorOp.kind? sub.toNat = some (.replace shape))
      (inRange : lane < shape.lanes) : HasType Γ (.vectorLane sub lane) [.v128, shape.lane] [.v128]
  | vectorLoad {sub arg extent} (assigned : VectorOp.kind? sub.toNat = some (.load extent)) (memory : Γ.HasMemory)
      (aligned : arg.Aligned extent) : HasType Γ (.vectorMemory sub arg) [.i32] [.v128]
  | vectorStore {sub arg extent} (assigned : VectorOp.kind? sub.toNat = some (.store extent)) (memory : Γ.HasMemory)
      (aligned : arg.Aligned extent) : HasType Γ (.vectorMemory sub arg) [.i32, .v128] []
  | loadLane {sub arg lane extent} (assigned : VectorOp.kind? sub.toNat = some (.loadLane extent))
      (memory : Γ.HasMemory) (aligned : arg.Aligned extent) (inRange : extent.HasLane lane) :
      HasType Γ (.vectorMemoryLane sub arg lane) [.i32, .v128] [.v128]
  | storeLane {sub arg lane extent} (assigned : VectorOp.kind? sub.toNat = some (.storeLane extent))
      (memory : Γ.HasMemory) (aligned : arg.Aligned extent) (inRange : extent.HasLane lane) :
      HasType Γ (.vectorMemoryLane sub arg lane) [.i32, .v128] []

/-- What a block takes and gives. -/
inductive BlockType.HasType (Γ : Scope) : BlockType → List ValueType → List ValueType → Prop where
  | empty : HasType Γ .empty [] []
  | value (t : ValueType) : HasType Γ (.value t.tag) [] [t]
  | indexed {index type} (known : Γ.HasSignature index type) :
      HasType Γ (.indexed index) type.params type.results

/-- What code takes and gives inside blocks with the given label types, the innermost one first. -/
inductive Code.HasType (Γ : Scope) :
    List (List ValueType) → Code → List ValueType → List ValueType → Prop where
  | empty {labels} : HasType Γ labels .nil [] []
  | sequence {labels a b ts us vs} (first : HasType Γ labels a ts us) (second : HasType Γ labels b us vs) :
      HasType Γ labels (a.append b) ts vs
  /-- Operands that code does not touch may lie below those it takes. -/
  | frame {labels a ts us} (below : List ValueType) (above : HasType Γ labels a ts us) :
      HasType Γ labels a (below ++ ts) (below ++ us)
  | plain {labels op ts us} (typed : op.HasType Γ ts us) : HasType Γ labels (.single (.plain op)) ts us
  | drop {labels} (t : ValueType) : HasType Γ labels (.single .drop) [t] []
  /-- Without an annotation, only numbers and vectors are chosen from. -/
  | select {labels} (t : ValueType) (simple : t = .v128 ∨ ∃ n, t = .num n) :
      HasType Γ labels (.single .select) [t, t, .i32] [t]
  | refIsNull {labels} (t : RefType) : HasType Γ labels (.single .refIsNull) [.ref t] [.i32]
  | unreachable {labels} (ts us : List ValueType) : HasType Γ labels (.single .unreachable) ts us
  | br {labels label types} (target : labels[label.toNat]? = some types) (ts us : List ValueType) :
      HasType Γ labels (.single (.br label)) (ts ++ types) us
  | brIf {labels label types} (target : labels[label.toNat]? = some types) :
      HasType Γ labels (.single (.brIf label)) (types ++ [.i32]) types
  | brTable {labels targets default types}
      (agree : ∀ label ∈ targets ++ [default], labels[label.toNat]? = some types)
      (ts us : List ValueType) :
      HasType Γ labels (.single (.brTable targets default)) (ts ++ types ++ [.i32]) us
  | return_ {labels types} (returns : Γ.returns = some types) (ts us : List ValueType) :
      HasType Γ labels (.single .return_) (ts ++ types) us
  | block {labels type inner ts us} (typed : type.HasType Γ ts us)
      (body : HasType Γ (us :: labels) inner ts us) : HasType Γ labels (.block type inner .nil) ts us
  /-- A branch to a loop goes back to its start. -/
  | loop {labels type inner ts us} (typed : type.HasType Γ ts us)
      (body : HasType Γ (ts :: labels) inner ts us) : HasType Γ labels (.loop type inner .nil) ts us
  /-- The second part that is missing is an empty one. -/
  | if_ {labels type inner ts us} (typed : type.HasType Γ ts us)
      (body : HasType Γ (us :: labels) inner ts us) (other : HasType Γ (us :: labels) .nil ts us) :
      HasType Γ labels (.if_ type inner .nil) (ts ++ [.i32]) us
  | ifElse {labels type inner other ts us} (typed : type.HasType Γ ts us)
      (body : HasType Γ (us :: labels) inner ts us) (second : HasType Γ (us :: labels) other ts us) :
      HasType Γ labels (.ifElse type inner other .nil) (ts ++ [.i32]) us

end Wasm
