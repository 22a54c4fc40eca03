import RelScript.Error
import RelScript.Text.Blank

/-!
Settings of an engine, their defaults, and how environment variables set them.
-/

namespace RelScript

/-- The settings of an engine. -/
structure Config where
  /-- Rows of a batch that a scan produces. -/
  batchSizeRows : Nat
  /-- Number of tasks that filters and projections are split into. -/
  taskParallelism : Nat
  /-- Whether stores are queued and run together. -/
  batchMode : Bool
  /-- Greatest size of a row that a scalar may have. -/
  maxScalarRowBytes : Nat
  deriving DecidableEq

/-- The value of each environment variable that is set. -/
abbrev Environment := List (String × String)

/-- The greatest number that a setting can hold. -/
def maxSetting : Nat := UInt64.size - 1

/-- Reads digits on from a number; the first character that is no digit or leads past the greatest
setting decides the fault. -/
def readDigits (n : Nat) : List Char → Except NumberFault Nat
  | [] => .ok n
  | c :: rest =>
    if c.isDigit then
      let next := n * 10 + (c.toNat - '0'.toNat)
      if maxSetting < next then .error .tooLarge else readDigits next rest
    else .error .invalidDigit

/-- A setting's number: digits, with an optional plus sign. -/
def readSetting : List Char → Except NumberFault Nat
  | [] => .error .empty
  | ['+'] => .error .invalidDigit
  | '+' :: rest => readDigits 0 rest
  | digits => readDigits 0 digits

/-- A switch: a word for on or off, in any case. -/
def readSwitch? (word : String) : Option Bool :=
  if word ∈ ["1", "true", "on", "yes"] then some true
  else if word ∈ ["0", "false", "off", "no"] then some false
  else none

namespace Config

/-- The settings of an engine that nobody configured. -/
def default : Config := ⟨8192, 4, false, 1024 * 1024⟩

/-- The settings, of which all numbers have to be positive. -/
def validate (c : Config) : Outcome Config :=
  if c.batchSizeRows = 0 then .error (.config (.notPositive "batch_size_rows"))
  else if c.taskParallelism = 0 then .error (.config (.notPositive "task_parallelism"))
  else if c.maxScalarRowBytes = 0 then .error (.config (.notPositive "max_scalar_row_bytes"))
  else .ok c

/-- The number that a variable sets, without white space around it. -/
def numberOf (env : Environment) (key : String) (fallback : Nat) : Outcome Nat :=
  match env.lookup key with
  | none => .ok fallback
  | some value =>
    (readSetting (Text.trim value.toList)).mapError fun f => .config (.badNumber key value f)

/-- The switch that a variable sets, without white space around it. -/
def switchOf (env : Environment) (key : String) (fallback : Bool) : Outcome Bool :=
  match env.lookup key with
  | none => .ok fallback
  | some value =>
    let word := String.ofList ((Text.trim value.toList).map Char.toLower)
    match readSwitch? word with
    | some b => .ok b
    | none => .error (.config (.badSwitch key word))

/-- The settings that the environment asks for. -/
def ofEnvironment (env : Environment) : Outcome Config := do
  let batchSizeRows ← numberOf env "FLOWQ_BATCH_SIZE_ROWS" default.batchSizeRows
  let taskParallelism ← numberOf env "FLOWQ_TASK_PARALLELISM" default.taskParallelism
  let batchMode ← switchOf env "FLOWQ_BATCH_MODE" default.batchMode
  let maxScalarRowBytes ← numberOf env "FLOWQ_MAX_SCALAR_ROW_BYTES" default.maxScalarRowBytes
  validate ⟨batchSizeRows, taskParallelism, batchMode, maxScalarRowBytes⟩

end Config

end RelScript
