import RelScript.Ieee.Arithmetic
import RelScript.Ieee.Layout
import RelScript.Text.Digest

/-!
Metrics: what happened, and its text in the exposition format. Families come in the order of their
names, the samples of a family in the order of their label values.
-/

namespace RelScript

/-- Something that is counted. -/
inductive MetricEvent
  | rowsOut (query operator : String) (rows : Nat)
  | materialized (query aliasName : String) (seconds : Ieee.Bits .double)
  | scalarRead (query aliasName : String)
  | scalarFailed (query aliasName reason : String)
  deriving DecidableEq

/-- Everything that happened, in order. -/
abbrev Metrics := List MetricEvent

namespace Metrics

/-- Label names with their values, the query first. -/
abbrev Labels := List (String × String)

/-- The labels in the order of their names, as texts show them. -/
def Labels.sorted (labels : Labels) : Labels :=
  labels.mergeSort fun a b => (compare a.1 b.1).isLE

/-- What tells the samples of a family apart: the digest of their label values, one after another.
Values that run together to the same text are not told apart. -/
def Labels.identity (labels : Labels) : UInt64 := Text.digest (String.join (labels.map (·.2)))

/-- A label value with the backslash, the quote and the line feed escaped. -/
def escapeLabel (value : String) : String :=
  String.ofList <| value.toList.flatMap fun c =>
    if c = '\\' then ['\\', '\\']
    else if c = '"' then ['\\', '"']
    else if c = '\n' then ['\\', 'n']
    else [c]

/-- Labels in braces. -/
def labelText (labels : Labels) : String :=
  "\x7b" ++ ",".intercalate (labels.map fun l => l.1 ++ "=\"" ++ escapeLabel l.2 ++ "\"") ++ "\x7d"

/-- One line of a family. -/
def sampleLine (name : String) (labels : Labels) (value : String) : String :=
  name ++ labelText labels ++ " " ++ value

/-- A value as samples show it. -/
def valueText (x : Ieee.Bits .double) : String := x.write .sample

/-- Sum of some values, in order. -/
def total (values : List (Ieee.Bits .double)) : Ieee.Bits .double :=
  values.foldl Ieee.Bits.add (Ieee.zero .double false)

/-- The label sets that are told apart, each as it first occurs, in the order of their values. -/
def labelSets {α : Type} (samples : List (Labels × α)) : List Labels :=
  let firsts := samples.foldl (fun found s =>
    if found.any (·.identity = s.1.identity) then found else found ++ [s.1]) []
  firsts.mergeSort fun a b => (compare (a.sorted.map (·.2)) (b.sorted.map (·.2))).isLE

/-- The values that count towards one label set, in order. -/
def valuesOf (samples : List (Labels × Ieee.Bits .double)) (labels : Labels) :
    List (Ieee.Bits .double) :=
  samples.filterMap fun s => if s.1.identity = labels.identity then some s.2 else none

/-- A family of samples: its head, and the lines of each label set; nothing without samples. -/
def family (name help kind : String) (samples : List (Labels × Ieee.Bits .double))
    (lines : Labels → List (Ieee.Bits .double) → List String) : List String :=
  if samples.isEmpty then []
  else
    ("# HELP " ++ name ++ " " ++ help) :: ("# TYPE " ++ name ++ " " ++ kind) ::
      (labelSets samples).flatMap fun labels => lines labels.sorted (valuesOf samples labels)

/-- A family of sums. -/
def counter (name help : String) (samples : List (Labels × Ieee.Bits .double)) : List String :=
  family name help "counter" samples fun labels values =>
    [sampleLine name labels (valueText (total values))]

/-- The upper bounds of the duration buckets, in thousandths of a second. -/
def bucketBounds : List Nat := [5, 10, 25, 50, 100, 250, 500, 1000, 2500, 5000, 10000]

/-- A bound as a number. -/
def boundValue (millis : Nat) : Ieee.Bits .double := Ieee.ofDecimal .double false millis (-3)

/-- A family of durations: for each bound how many durations it covers, then their sum and
number. -/
def histogram (name help : String) (samples : List (Labels × Ieee.Bits .double)) : List String :=
  family name help "histogram" samples fun labels values =>
    let bucket (bound : String) (count : Nat) :=
      sampleLine (name ++ "_bucket") (labels ++ [("le", bound)]) (toString count)
    (bucketBounds.map fun millis =>
      bucket (valueText (boundValue millis))
        (values.filter fun v => decide (v.rank ≤ (boundValue millis).rank)).length) ++
      [bucket "+Inf" values.length,
        sampleLine (name ++ "_sum") labels (valueText (total values)),
        sampleLine (name ++ "_count") labels (toString values.length)]

/-- A duration as it is recorded: never negative, and zero if it is no number. -/
def duration (seconds : Ieee.Bits .double) : Ieee.Bits .double :=
  if seconds.isNaN || seconds.negative then Ieee.zero .double false else seconds

/-- One, as a sample value. -/
def one : Ieee.Bits .double := Ieee.ofInt .double 1

/-- The labels of a scalar in a query. -/
def scalarLabels (query aliasName : String) : Labels := [("query_id", query), ("alias", aliasName)]

/-- Rows by operator and query. -/
def rowSamples (m : Metrics) : List (Labels × Ieee.Bits .double) :=
  m.filterMap fun
    | .rowsOut query operator rows =>
      some ([("query_id", query), ("operator", operator)], Ieee.ofInt .double rows)
    | _ => none

/-- Reads by scalar and query. -/
def readSamples (m : Metrics) : List (Labels × Ieee.Bits .double) :=
  m.filterMap fun
    | .scalarRead query aliasName => some (scalarLabels query aliasName, one)
    | _ => none

/-- Failures by scalar, query and reason. -/
def failureSamples (m : Metrics) : List (Labels × Ieee.Bits .double) :=
  m.filterMap fun
    | .scalarFailed query aliasName reason =>
      some (scalarLabels query aliasName ++ [("reason", reason)], one)
    | _ => none

/-- Materializations by scalar and query. -/
def materializationSamples (m : Metrics) : List (Labels × Ieee.Bits .double) :=
  m.filterMap fun
    | .materialized query aliasName _ => some (scalarLabels query aliasName, one)
    | _ => none

/-- Durations by scalar and query. -/
def durationSamples (m : Metrics) : List (Labels × Ieee.Bits .double) :=
  m.filterMap fun
    | .materialized query aliasName seconds => some (scalarLabels query aliasName, duration seconds)
    | _ => none

/-- The lines of the exposition text. -/
def lines (m : Metrics) : List String :=
  counter "flowq_operator_rows_out_total" "Output rows produced per operator" m.rowSamples ++
    counter "flowq_scalar_broadcast_reads_total" "Consumer task reads of a bound scalar"
      m.readSamples ++
    counter "flowq_scalar_failures_total" "Scalar side-inputs that ended in the failed state"
      m.failureSamples ++
    counter "flowq_scalar_materializations_total" "Scalar side-input subtrees executed"
      m.materializationSamples ++
    histogram "flowq_scalar_materialize_seconds" "Time spent materializing a scalar side-input"
      m.durationSamples

end Metrics

end RelScript
