import RelScript.Operator
import RelScript.Schema

/-!
Failures by cause, with their codes and their texts. An error belongs to one category; the category
decides the beginning of its text and whether it is found before anything runs.
-/

namespace RelScript

/-- Stable diagnostic codes. -/
inductive ErrorCode
  | unresolvedScalarField
  | incompatibleScalarOperand
  | typeMismatch
  | scalarProjectionOnly
  | cyclicScalarDependency
  | scalarCardinality
  | scalarCancelled
  deriving DecidableEq

namespace ErrorCode

/-- The number of a code. -/
def number : ErrorCode → Nat
  | unresolvedScalarField => 1025
  | incompatibleScalarOperand => 1039
  | typeMismatch => 1059
  | scalarProjectionOnly => 1200
  | cyclicScalarDependency => 1201
  | scalarCardinality => 2100
  | scalarCancelled => 2101

/-- The symbolic name of a code. -/
def name : ErrorCode → String
  | unresolvedScalarField => "E_SCALAR_UNRESOLVED_FIELD"
  | incompatibleScalarOperand => "E_SCALAR_INCOMPATIBLE_OPERAND"
  | typeMismatch => "E_TYPE_MISMATCH"
  | scalarProjectionOnly => "E_SCALAR_PROJECTION_ONLY"
  | cyclicScalarDependency => "E_SCALAR_CYCLE"
  | scalarCardinality => "E_SCALAR_ROW_VIOLATION"
  | scalarCancelled => "E_SCALAR_CANCELLED"

/-- Number and name. -/
def text (c : ErrorCode) : String := toString c.number ++ " " ++ c.name

end ErrorCode

/-- Why a text is no number of the wanted range. -/
inductive NumberFault
  | empty
  | invalidDigit
  | tooLarge
  deriving DecidableEq

/-- Text of the fault. -/
def NumberFault.message : NumberFault → String
  | empty => "cannot parse integer from empty string"
  | invalidDigit => "invalid digit found in string"
  | tooLarge => "number too large to fit in target type"

/-- What is wrong with a configuration or a registered table. -/
inductive ConfigFault
  | notPositive (setting : String)
  | badNumber (key value : String) (fault : NumberFault)
  | badSwitch (key value : String)
  | batchSchema (batch table : Schema)
  | stated (text : String)
  deriving DecidableEq

/-- Text of the fault. -/
def ConfigFault.message : ConfigFault → String
  | notPositive setting => setting ++ " must be > 0"
  | badNumber key value fault => key ++ "=" ++ Text.quote value ++ ": " ++ fault.message
  | badSwitch key value => key ++ ": expected boolean, got " ++ Text.quote value
  | batchSchema batch table =>
    "batch schema " ++ batch.describe ++ " does not match table schema " ++ table.describe
  | stated text => text

/-- What is wrong with the shape or the names of a query. -/
inductive PlanningFault
  | unknownAlias (aliasName : String)
  | notCompiled (aliasName : String)
  | notInlined (aliasName : String)
  | notLowered (aliasName : String)
  | unresolvedColumn (name : String)
  | unboundScalar (aliasName : String) (field : FieldSelector)
  | scalarInAnalysis (aliasName : String) (field : FieldSelector)
  | scalarInExecution (aliasName : String) (field : FieldSelector)
  | undeclaredInput (column : String)
  | unknownColumn (column : String)
  | ambiguousColumn (column : String)
  | positionOutOfRange (index width : Nat)
  | missingCasts (left right : DataType)
  | unknownExecutionColumn (name : String)
  | sideInputOrder (id dependency : SideInputId)
  | unknownTable (name : String)
  | stated (text : String)
  deriving DecidableEq

/-- Text of the fault. -/
def PlanningFault.message : PlanningFault → String
  | unknownAlias aliasName => "unknown alias: " ++ aliasName
  | notCompiled aliasName => "alias '" ++ aliasName ++ "' was not compiled"
  | notInlined aliasName =>
    "relation '" ++ aliasName ++ "' was not inlined before schema derivation"
  | notLowered aliasName =>
    "relation '" ++ aliasName ++ "' reached physical planning without being inlined"
  | unresolvedColumn name => "unresolved column: " ++ name
  | unboundScalar aliasName field =>
    "scalar reference " ++ aliasName ++ "." ++ field.text ++ " was not rewritten"
  | scalarInAnalysis aliasName field =>
    "scalar reference " ++ aliasName ++ "." ++ field.text ++ " must be rewritten before analysis"
  | scalarInExecution aliasName field =>
    "scalar reference " ++ aliasName ++ "." ++ field.text ++
      " reached execution without being rewritten"
  | undeclaredInput column =>
    "cannot resolve field '" ++ column ++
      "': relation has no schema, use a positional reference"
  | unknownColumn column => "unknown column: " ++ column
  | ambiguousColumn column => "ambiguous column reference: " ++ column ++ " (use alias::col)"
  | positionOutOfRange index width =>
    "column position $" ++ toString index ++ " out of range (" ++ toString width ++ " fields)"
  | missingCasts left right =>
    "execution expects casts inserted by analyzer; got " ++ left.name ++ " vs " ++ right.name
  | unknownExecutionColumn name => "unknown column in execution: " ++ name
  | sideInputOrder id dependency =>
    "side input " ++ sideInputText id ++ " depends on " ++ sideInputText dependency ++
      ", which is not registered before it"
  | unknownTable name => "unknown table: " ++ name
  | stated text => text

/-- Why the values of a column cannot be cast. -/
inductive CastFault
  | unsupported (source target : DataType)
  | beyondCalendar (value : Int) (source : DataType)
  deriving DecidableEq

/-- Text of the fault. -/
def CastFault.message : CastFault → String
  | unsupported source target =>
    "Cast error: Casting from " ++ source.name ++ " to " ++ target.name ++ " not supported"
  | beyondCalendar value source =>
    "Cast error: Failed to convert " ++ toString value ++ " to temporal for " ++ source.name

/-- Why an arithmetic operation has no result. -/
inductive ArithmeticFault
  | overflow (op : Arithmetic) (left right : Int)
  | unsupported (op : Arithmetic) (left right : DataType)
  | unsupportedDate (op : Arithmetic) (left right : DataType)
  | unsupportedDuration (op : Arithmetic) (left right : DataType)
  deriving DecidableEq

/-- Text of the fault. -/
def ArithmeticFault.message : ArithmeticFault → String
  | overflow op left right =>
    "Arithmetic overflow: Overflow happened on: " ++ toString left ++ " " ++ op.symbol ++ " " ++
      toString right
  | unsupported op left right =>
    "Invalid argument error: Invalid arithmetic operation: " ++ left.name ++ " " ++ op.symbol ++
      " " ++ right.name
  | unsupportedDate op left right =>
    "Invalid argument error: Invalid date arithmetic operation: " ++ left.name ++ " " ++
      op.symbol ++ " " ++ right.name
  | unsupportedDuration op left right =>
    "Invalid argument error: Invalid duration arithmetic operation: " ++ left.name ++ " " ++
      op.symbol ++ " " ++ right.name

/-- Why columns do not make a batch. -/
inductive BatchFault
  | noColumns
  | missingValue (field : String)
  | columnType (declared found : DataType) (index : Nat)
  deriving DecidableEq

/-- Text of the fault. -/
def BatchFault.message : BatchFault → String
  | noColumns => "Invalid argument error: must either specify a row count or at least one column"
  | missingValue field =>
    "Invalid argument error: Column '" ++ field ++
      "' is declared as non-nullable but contains null values"
  | columnType declared found index =>
    "Invalid argument error: column types must match schema types, expected " ++ declared.name ++
      " but found " ++ found.name ++ " at column index " ++ toString index

/-- Which operator could not build its batch. -/
inductive BatchSite
  | scan (source : String)
  | projection
  | aggregate
  | join
  | freezing
  deriving DecidableEq

/-- Text of the site. -/
def BatchSite.message : BatchSite → String
  | scan source => "scan of '" ++ source ++ "' failed"
  | projection => "projection batch failed"
  | aggregate => "aggregate output batch failed"
  | join => "join output batch failed"
  | freezing => "freezing scalar row failed"

/-- What an operator or an expression could not do while running. -/
inductive ExecutionFault
  | operandsDiffer (left right : DataType)
  | notOperand
  | junctionOperand
  | concatOperand
  | predicateType
  | arithmetic (fault : ArithmeticFault)
  | castToText (fault : CastFault)
  | cast (fault : CastFault)
  | zeroDivisor (fault : CastFault)
  | unboundPlaceholder (aliasName : String) (index : Nat) (id : SideInputId)
  | noSlot (id : SideInputId)
  | notTerminal (aliasName state : String)
  | sumOverflow
  | countOverflow
  | incomparable
  | mixedValues (kind : String)
  | batch (site : BatchSite) (fault : BatchFault)
  | rowTooLarge (aliasName : String) (bytes limit : Nat)
  | noOutput (aliasName : String)
  | stated (text : String)
  deriving DecidableEq

/-- Text of the fault. -/
def ExecutionFault.message : ExecutionFault → String
  | operandsDiffer left right =>
    "comparison operands differ: " ++ left.name ++ " vs " ++ right.name
  | notOperand => "NOT expects boolean"
  | junctionOperand => "AND/OR expects boolean"
  | concatOperand => "CONCAT expects chararray"
  | predicateType => "filter predicate must be boolean"
  | arithmetic fault => "arith kernel failed: " ++ fault.message
  | castToText fault => "bytearray is not valid text: " ++ fault.message
  | cast fault => "cast failed: " ++ fault.message
  | zeroDivisor fault => "zero divisor literal failed: " ++ fault.message
  | unboundPlaceholder aliasName index id =>
    "scalar " ++ aliasName ++ ".$" ++ toString index ++ " read outside a broadcast of " ++
      sideInputText id
  | noSlot id => "side input " ++ sideInputText id ++ " has no slot in this execution"
  | notTerminal aliasName state =>
    "side input '" ++ aliasName ++ "' observed in non-terminal state " ++ state
  | sumOverflow => "integer overflow in SUM"
  | countOverflow => "count overflow"
  | incomparable => "cannot compare values of different types"
  | mixedValues kind => "type mismatch while building " ++ kind ++ " array"
  | batch site fault => site.message ++ ": " ++ fault.message
  | rowTooLarge aliasName bytes limit =>
    "scalar row of '" ++ aliasName ++ "' is " ++ toString bytes ++
      " bytes, above the broadcast limit of " ++ toString limit ++ " bytes"
  | noOutput aliasName => "no output produced for '" ++ aliasName ++ "'"
  | stated text => text

/-- What is not implemented. -/
inductive UnsupportedFault
  | reading (type : DataType)
  | building (type : DataType)
  | stated (text : String)
  deriving DecidableEq

/-- Text of the fault. -/
def UnsupportedFault.message : UnsupportedFault → String
  | reading type => "scalar type not supported yet: " ++ type.name
  | building type => "output type not supported yet: " ++ type.name
  | stated text => text

/-- Why a scalar reference picks no field. -/
inductive ResolutionFault
  | projectionOnly (aliasName : String)
  | undeclaredScalar (field aliasName : String)
  | noSuchField (aliasName field : String)
  | fieldOutOfRange (index : Nat) (aliasName : String) (width : Nat)
  | stated (text : String)
  deriving DecidableEq

/-- Text of the fault. -/
def ResolutionFault.message : ResolutionFault → String
  | projectionOnly aliasName =>
    "scalars may only be used via field projection (relation '" ++ aliasName ++
      "' used as a whole tuple)"
  | undeclaredScalar field aliasName =>
    "cannot resolve field '" ++ field ++ "' of scalar '" ++ aliasName ++ "': relation has no schema"
  | noSuchField aliasName field =>
    "scalar '" ++ aliasName ++ "' has no field named '" ++ field ++ "'"
  | fieldOutOfRange index aliasName width =>
    "position $" ++ toString index ++ " is out of range for scalar '" ++ aliasName ++ "' with " ++
      toString width ++ " fields"
  | stated text => text

/-- Which clause needs a boolean condition. -/
inductive Clause
  | filter
  | split
  deriving DecidableEq

/-- The word of a clause. -/
def Clause.word : Clause → String
  | filter => "FILTER"
  | split => "SPLIT"

/-- Why operand types do not fit. -/
inductive TypeFault
  | untypedScalar (operator left right : String)
  | condition (clause : Clause) (found : DataType)
  | junction (word : Junction)
  | negation
  | aggregate (fn : AggregateFn) (found : DataType)
  | comparison (left right : DataType)
  | operands (op : BinaryOp) (left right : DataType)
  | stated (text : String)
  deriving DecidableEq

/-- Text of the fault. -/
def TypeFault.message : TypeFault → String
  | untypedScalar operator left right =>
    "incompatible types in " ++ operator ++ " operator: left hand side " ++ left ++
      ", right hand side " ++ right ++ "; cast the scalar field explicitly"
  | condition clause found => clause.word ++ " condition must be boolean, got " ++ found.word
  | junction word => word.word ++ " requires boolean operands"
  | negation => "NOT requires boolean operand"
  | aggregate fn found => fn.word ++ "() does not accept " ++ found.word
  | comparison left right => "cannot compare " ++ left.word ++ " with " ++ right.word
  | operands op left right =>
    "incompatible types in " ++ op.displayName ++ " operator: left hand side " ++ left.word ++
      ", right hand side " ++ right.word
  | stated text => text

/-- Failures, by category. -/
inductive Error
  | config (fault : ConfigFault)
  | planning (fault : PlanningFault)
  | execution (fault : ExecutionFault)
  | storage (text : String)
  | unsupported (fault : UnsupportedFault)
  | resolution (fault : ResolutionFault)
  | typeCheck (fault : TypeFault)
  | cycle (chain : List String)
  | cardinality (aliasName : String) (rows : Nat)
  | cancelled (text : String)
  deriving DecidableEq

namespace Error

/-- The diagnostic code, for the categories that have one. -/
def code : Error → Option ErrorCode
  | resolution (.projectionOnly _) => some .scalarProjectionOnly
  | resolution _ => some .unresolvedScalarField
  | typeCheck (.untypedScalar _ _ _) => some .incompatibleScalarOperand
  | typeCheck _ => some .typeMismatch
  | cycle _ => some .cyclicScalarDependency
  | cardinality _ _ => some .scalarCardinality
  | cancelled _ => some .scalarCancelled
  | config _ | planning _ | execution _ | storage _ | unsupported _ => none

/-- Whether the failure is found before anything runs. -/
def isCompileTime : Error → Bool
  | resolution _ | typeCheck _ | cycle _ | planning _ => true
  | config _ | execution _ | storage _ | unsupported _ | cardinality _ _ | cancelled _ => false

/-- The beginning of the text, which names the category. -/
def category : Error → String
  | config _ => "invalid configuration"
  | planning _ => "planning error"
  | execution _ => "execution error"
  | storage _ => "io error"
  | unsupported _ => "unsupported"
  | resolution _ => "resolution error"
  | typeCheck _ => "type check error"
  | cycle _ => "cyclic scalar dependency"
  | cardinality _ _ => "scalar cardinality error"
  | cancelled _ => "scalar side-input cancelled"

/-- The text of the cause alone. -/
def cause : Error → String
  | config fault => fault.message
  | planning fault => fault.message
  | execution fault => fault.message
  | storage text => text
  | unsupported fault => fault.message
  | resolution fault => fault.message
  | typeCheck fault => fault.message
  | cycle chain => " -> ".intercalate chain
  | cardinality aliasName rows =>
    "scalar relation '" ++ aliasName ++ "' produced " ++ toString rows ++
      " rows; a scalar must produce at most one row"
  | cancelled text => text

/-- The whole text: category, code and cause. -/
def message (e : Error) : String :=
  let code := match e.code with
    | some c => " [" ++ c.text ++ "]"
    | none => ""
  e.category ++ code ++ ": " ++ e.cause

/-- What a reader of a failed side input gets: the category of the failure decides whether it is
handed on as it is or reported as a cancellation. -/
def forReader (aliasName : String) : Error → Error
  | cardinality a rows => cardinality a rows
  | cancelled text => cancelled text
  | other => cancelled ("side input '" ++ aliasName ++ "' failed: " ++ other.message)

/-- The failure of a side input whose materializer went away. -/
def abandoned (aliasName : String) : Error :=
  cancelled ("materializer of side input '" ++ aliasName ++ "' stopped before binding")

end Error

/-- A result or a failure. -/
abbrev Outcome := Except Error

end RelScript
