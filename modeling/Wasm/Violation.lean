import Wasm.Instruction.Text
import Wasm.Section
import Wasm.Text.Quoted

/-! # Violations of the validity rules

Every way in which a module, or a stream of its entries, can break a rule. A violation has three
readings: its kind, whose `cause` is the normalised text that conformance suites compare; the kind's
category; and a message that names the offending types and indices.
-/

namespace Wasm

/-- The normalised kinds of violation. -/
inductive ViolationKind where
  | invalidValueType | malformedMutability | malformedReferenceType | malformedExportKind
  | sizeMinimumExceedsMaximum | memorySizeTooLarge | tableSizeTooLarge
  | unknownType | unknownFunction | unknownTable | unknownMemory | unknownGlobal
  | unknownElemSegment | unknownDataSegment
  | startFunction | multipleStartSections | multipleMemories | duplicateExportName
  | dataCountMismatch | functionCodeMismatch | tooManyLocals | unexpectedEvent
  | typeMismatch | unknownLocal | unknownLabel | immutableGlobal | alignmentTooLarge
  | invalidLaneIndex | invalidResultArity | undeclaredFunctionReference | dataCountRequired
  | elseWithoutIf | returnOutsideFunction | unclosedBlock | instructionAfterEnd | illegalOpcode
  | constantExpressionRequired
deriving DecidableEq, Repr

/-- Coarse groups of kinds. -/
inductive ViolationCategory where
  /-- Malformed declarations and indices out of range, at module level. -/
  | structural
  /-- Ill-typed instruction sequences and control nesting. -/
  | type
  /-- An instruction that a constant expression may not hold. -/
  | constant
deriving DecidableEq, Repr

namespace ViolationKind

/-- The normalised text of a kind. -/
def cause : ViolationKind → String
  | invalidValueType => "invalid value type"
  | malformedMutability => "malformed mutability"
  | malformedReferenceType => "malformed reference type"
  | malformedExportKind => "malformed export kind"
  | sizeMinimumExceedsMaximum => "size minimum must not be greater than maximum"
  | memorySizeTooLarge => "memory size must be at most 65536 pages (4GiB)"
  | tableSizeTooLarge => "table size must be at most 2^32-1"
  | unknownType => "unknown type"
  | unknownFunction => "unknown function"
  | unknownTable => "unknown table"
  | unknownMemory => "unknown memory"
  | unknownGlobal => "unknown global"
  | unknownElemSegment => "unknown elem segment"
  | unknownDataSegment => "unknown data segment"
  | startFunction => "start function"
  | multipleStartSections => "multiple start sections"
  | multipleMemories => "multiple memories"
  | duplicateExportName => "duplicate export name"
  | dataCountMismatch => "data count and data section have inconsistent lengths"
  | functionCodeMismatch => "function and code section have inconsistent lengths"
  | tooManyLocals => "too many locals"
  | unexpectedEvent => "unexpected event"
  | typeMismatch => "type mismatch"
  | unknownLocal => "unknown local"
  | unknownLabel => "unknown label"
  | immutableGlobal => "global is immutable"
  | alignmentTooLarge => "alignment must not be larger than natural"
  | invalidLaneIndex => "invalid lane index"
  | invalidResultArity => "invalid result arity"
  | undeclaredFunctionReference => "undeclared function reference"
  | dataCountRequired => "data count section required"
  | elseWithoutIf => "else instruction not in if block"
  | returnOutsideFunction => "return outside function"
  | unclosedBlock => "unclosed block"
  | instructionAfterEnd => "unexpected instruction after end"
  | illegalOpcode => "illegal opcode"
  | constantExpressionRequired => "constant expression required"

def category : ViolationKind → ViolationCategory
  | constantExpressionRequired => .constant
  | typeMismatch | unknownLocal | unknownLabel | immutableGlobal | alignmentTooLarge
  | invalidLaneIndex | invalidResultArity | undeclaredFunctionReference | dataCountRequired
  | elseWithoutIf | returnOutsideFunction | unclosedBlock | instructionAfterEnd
  | illegalOpcode => .type
  | _ => .structural

end ViolationKind

/-- The index spaces that an index can miss. -/
inductive IndexKind where
  | type | function | table | memory | global | elemSegment | dataSegment | localVariable | label
deriving DecidableEq, Repr

namespace IndexKind

def name : IndexKind → String
  | type => "type"
  | function => "function"
  | table => "table"
  | memory => "memory"
  | global => "global"
  | elemSegment => "elem segment"
  | dataSegment => "data segment"
  | localVariable => "local"
  | label => "label"

def violation : IndexKind → ViolationKind
  | type => .unknownType
  | function => .unknownFunction
  | table => .unknownTable
  | memory => .unknownMemory
  | global => .unknownGlobal
  | elemSegment => .unknownElemSegment
  | dataSegment => .unknownDataSegment
  | localVariable => .unknownLocal
  | label => .unknownLabel

end IndexKind

/-- What has a size with an absolute ceiling. -/
inductive Sized where
  | memory | table
deriving DecidableEq, Repr

namespace Sized

/-- The largest legal size: 65536 pages, or as many entries as there are 32-bit indices but one. -/
def ceiling : Sized → UInt64
  | memory => 65536
  | table => 4294967295

def violation : Sized → ViolationKind
  | memory => .memorySizeTooLarge
  | table => .tableSizeTooLarge

end Sized

/-- Parameters and declared locals together are as many as 32-bit indices can name. -/
def maxLocals : Nat := 4294967295

inductive Violation where
  -- declarations
  | invalidValueType (tag : UInt8)
  | notReferenceType (tag : UInt8)
  | malformedMutability (mutability : UInt8)
  | minimumTooLarge (sized : Sized) (min : UInt64)
  | maximumTooLarge (sized : Sized) (max : UInt64)
  | minimumExceedsMaximum (min max : UInt64)
  | tooManyLocals (count : Nat)
  | multipleMemories
  | duplicateExportName (name : String)
  | malformedExportKind (name : String) (kind : UInt8)
  | startSignature (func : UInt32) (type : FuncType)
  | multipleStarts
  | elementNotFuncref (element : RefType)
  | bodyWithoutFunction (place : Nat)
  | bodyCount (functions bodies : Nat)
  | dataCount (declared : UInt32) (found : Nat)
  -- order of the stream
  | afterEnd (entry : Section)
  | outOfOrder (entry last : Section)
  | multipleDataCounts
  | noElementForOffset
  | noElementForItem
  | noDataForOffset
  | refused (what : String)
  -- indices
  | unknown (kind : IndexKind) (index : UInt32)
  | dataCountRequired (data : UInt32)
  | undeclaredReference (func : UInt32)
  -- operands
  | underflow
  | mismatch (expected actual : ValueType)
  | notReference (actual : Slot)
  | leftover
  | selectDiffers
  | selectNeedsType (actual : Slot)
  | labelArity (label : UInt32) (arity : Nat) (default : UInt32) (defaultArity : Nat)
  | tableNotFuncref (table : UInt32) (element : RefType)
  | tablesDiffer (dst src : RefType)
  | elementTableDiffer (element table : RefType)
  -- immediates and nesting
  | selectArity (count : Nat)
  | immutableGlobal (global : UInt32)
  | alignment (align natural : UInt32)
  | laneIndex (lane lanes : UInt8)
  | illegalVector (sub : UInt32)
  | elseWithoutIf
  | returnOutsideFunction
  | unclosed (open_ : Nat)
  | afterExpression (i : Instruction)
  | noOpenBlock
  -- constant expressions
  | notConstant (i : Instruction)
  | mutableGlobal (global : UInt32)
  -- where it happened
  | inFunction (func : Nat) (inner : Violation)
deriving DecidableEq, Repr

namespace Violation

def kind : Violation → ViolationKind
  | invalidValueType _ => .invalidValueType
  | notReferenceType _ => .malformedReferenceType
  | malformedMutability _ => .malformedMutability
  | minimumTooLarge sized _ | maximumTooLarge sized _ => sized.violation
  | minimumExceedsMaximum .. => .sizeMinimumExceedsMaximum
  | tooManyLocals _ => .tooManyLocals
  | multipleMemories => .multipleMemories
  | duplicateExportName _ => .duplicateExportName
  | malformedExportKind .. => .malformedExportKind
  | startSignature .. => .startFunction
  | multipleStarts => .multipleStartSections
  | bodyWithoutFunction _ | bodyCount .. => .functionCodeMismatch
  | dataCount .. => .dataCountMismatch
  | afterEnd _ | outOfOrder .. | multipleDataCounts | noElementForOffset | noElementForItem
  | noDataForOffset | refused _ => .unexpectedEvent
  | unknown kind _ => kind.violation
  | dataCountRequired _ => .dataCountRequired
  | undeclaredReference _ => .undeclaredFunctionReference
  | underflow | mismatch .. | notReference _ | leftover | selectDiffers | selectNeedsType _
  | labelArity .. | tableNotFuncref .. | tablesDiffer .. | elementTableDiffer ..
  | elementNotFuncref _ => .typeMismatch
  | selectArity _ => .invalidResultArity
  | immutableGlobal _ => .immutableGlobal
  | alignment .. => .alignmentTooLarge
  | laneIndex .. => .invalidLaneIndex
  | illegalVector _ => .illegalOpcode
  | elseWithoutIf => .elseWithoutIf
  | returnOutsideFunction => .returnOutsideFunction
  | unclosed _ => .unclosedBlock
  | afterExpression _ | noOpenBlock => .instructionAfterEnd
  | notConstant _ | mutableGlobal _ => .constantExpressionRequired
  | inFunction _ inner => inner.kind

def cause (v : Violation) : String := v.kind.cause

def category (v : Violation) : ViolationCategory := v.kind.category

/-- A natural alignment in bytes. The exponent is taken modulo 32, the width of the word it is shown in. -/
def naturalBytes (natural : UInt32) : UInt32 := (1 : UInt32) <<< natural

def message : Violation → String
  | invalidValueType tag => "invalid value type " ++ Hex.tag tag
  | notReferenceType tag => Hex.tag tag ++ " is not a reference type"
  | malformedMutability m => "mutability " ++ Hex.tag m ++ " is neither const nor var"
  | minimumTooLarge sized min =>
    "limit out of range: minimum " ++ toString min ++ " exceeds " ++ toString sized.ceiling
  | maximumTooLarge sized max =>
    "limit out of range: maximum " ++ toString max ++ " exceeds " ++ toString sized.ceiling
  | minimumExceedsMaximum min max =>
    "limit out of range: minimum " ++ toString min ++ " exceeds maximum " ++ toString max
  | tooManyLocals count =>
    toString count ++ " locals exceed the limit of " ++ toString maxLocals
  | multipleMemories => "multiple memories are not supported"
  | duplicateExportName name => "duplicate export name " ++ Text.Quoted.encode name
  | malformedExportKind name kind =>
    "export " ++ Text.Quoted.encode name ++ " has malformed kind " ++ Hex.tag kind
  | startSignature func type =>
    "start function " ++ toString func ++ " does not have type [] -> [], found " ++ type.text
  | multipleStarts => "multiple start sections"
  | elementNotFuncref element =>
    "function indices make funcref elements, not " ++ element.name
  | bodyWithoutFunction place =>
    "function body " ++ toString place ++ " has no matching function declaration"
  | bodyCount functions bodies =>
    "function count (" ++ toString functions ++ ") does not match code count (" ++
      toString bodies ++ ")"
  | dataCount declared found =>
    "data count mismatch: declared " ++ toString declared ++ ", found " ++ toString found ++
      " data segments"
  | afterEnd entry => entry.name ++ " event after the end of the module"
  | outOfOrder entry last => entry.name ++ " event after " ++ last.name ++ " event"
  | multipleDataCounts => "multiple data count sections"
  | noElementForOffset => "element offset without an active element segment"
  | noElementForItem => "element item without an expression-initialized element segment"
  | noDataForOffset => "data offset without an active data segment"
  | refused what => "delegate rejects " ++ what
  | unknown kind index =>
    let place := kind.name ++ " " ++ toString index
    "unknown " ++ place ++ ": " ++ place ++ " does not exist"
  | dataCountRequired data =>
    "data segment " ++ toString data ++ " referenced without a data count section"
  | undeclaredReference func => "function reference " ++ toString func ++ " not declared"
  | underflow => "stack underflow"
  | mismatch expected actual => "type mismatch, expected " ++ expected.name ++ " got " ++ actual.name
  | notReference actual => "type mismatch, expected a reference got " ++ actual.name
  | leftover => "stack height does not match frame height"
  | selectDiffers => "select argument types do not match"
  | selectNeedsType actual =>
    "select without a type annotation requires numeric or vector operands, got " ++ actual.name
  | labelArity label arity default defaultArity =>
    "block type mismatch: label " ++ toString label ++ " has arity " ++ toString arity ++
      ", default label " ++ toString default ++ " has arity " ++ toString defaultArity
  | tableNotFuncref table element =>
    "table type must be funcref, table " ++ toString table ++ " holds " ++ element.name
  | tablesDiffer dst src => "table types don't match: " ++ dst.name ++ " and " ++ src.name
  | elementTableDiffer element table =>
    "element and table types don't match: " ++ element.name ++ " and " ++ table.name
  | selectArity count => "typed select must name exactly one type, got " ++ toString count
  | immutableGlobal global => "global " ++ toString global ++ " is immutable"
  | alignment align natural =>
    "alignment (2^" ++ toString align ++ ") exceeds natural alignment (" ++
      toString (naturalBytes natural) ++ ")"
  | laneIndex lane lanes =>
    "lane index " ++ toString lane ++ " must be smaller than vector dimension " ++ toString lanes
  | illegalVector sub =>
    "illegal vector opcode 0xfd 0x" ++ Hex.digits sub.toNat ++ " for its immediates"
  | elseWithoutIf => "else instruction not in if block"
  | returnOutsideFunction => "expression does not have a return type"
  | unclosed count => "not all blocks have been ended (" ++ toString count ++ " open)"
  | afterExpression i => "unexpected instruction after end of expression: " ++ i.text
  | noOpenBlock => "no open block, the expression has already ended"
  | notConstant i => i.mnemonic ++ " is not allowed in a constant expression"
  | mutableGlobal global => "global " ++ toString global ++ " must be const"
  | inFunction func inner => "function " ++ toString func ++ ": " ++ inner.message

end Violation

end Wasm
