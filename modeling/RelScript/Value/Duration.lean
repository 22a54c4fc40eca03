import RelScript.Calendar
import RelScript.DataType

/-!
Durations: the time between two dates, counted in seconds between days and in milliseconds between
moments, and its text.
-/

namespace RelScript

namespace DateKind

/-- Number of units in a second. -/
def perSecond : DateKind → Nat
  | days => 1
  | millis => 1000

/-- The time from date `b` to date `a`, unless it is past the 64-bit range. -/
def between : (k : DateKind) → (a b : Whole k.store) → Option (Whole .int64)
  | days, a, b => Whole.ofInt? .int64 ((a.val - b.val) * Calendar.daySeconds)
  | millis, a, b => Whole.ofInt? .int64 (a.val - b.val)

/-- A fraction of a second in thousandths, without the zeros at its end. -/
def fractionText (thousandths : Nat) : String :=
  if thousandths = 0 then ""
  else
    let digits := (Calendar.padded 3 thousandths).toList.reverse.dropWhile (· = '0')
    "." ++ String.ofList digits.reverse

/-- The text of a duration: its seconds, or no days for no time at all. -/
def durationText (k : DateKind) (n : Whole .int64) : String :=
  if n.val = 0 then "P0D"
  else
    let sign := if n.val < 0 then "-" else ""
    sign ++ "PT" ++ toString (n.val.natAbs / k.perSecond) ++
      fractionText (n.val.natAbs % k.perSecond) ++ "S"

end DateKind

end RelScript
