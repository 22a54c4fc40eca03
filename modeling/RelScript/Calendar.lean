import RelScript.Ieee.Reading
import RelScript.Text.Blank

/-!
The proleptic Gregorian calendar: days counted from 1970-01-01, the ISO text of a date or of a
moment in milliseconds, and the date forms that are read from text.
-/

namespace RelScript.Calendar

/-- A day of the calendar. -/
structure Date where
  year : Int
  month : Nat
  day : Nat
  deriving DecidableEq

/-- The years that the calendar covers. -/
def covers (year : Int) : Bool := -262143 ≤ year && year ≤ 262142

/-- Whether the year has a 29th of February. -/
def isLeap (year : Int) : Bool := year % 4 = 0 && (year % 100 ≠ 0 || year % 400 = 0)

/-- Number of days of a month. -/
def monthLength (year : Int) (month : Nat) : Nat :=
  if month = 2 then if isLeap year then 29 else 28
  else if month = 4 || month = 6 || month = 9 || month = 11 then 30 else 31

/-- Days before the first of January of a year, counted from 1970-01-01. -/
def daysBefore (year : Int) : Int :=
  let y := year - 1
  365 * (year - 1970) + (y / 4 - y / 100 + y / 400) - 477

/-- Days before the first of a month within its year. -/
def monthOffset (year : Int) : Nat → Nat
  | 0 => 0
  | 1 => 0
  | month + 1 => monthOffset year month + monthLength year month

/-- The day number of a date, if the calendar has that date. -/
def Date.number? (d : Date) : Option Int :=
  if covers d.year ∧ 1 ≤ d.month ∧ d.month ≤ 12 ∧ 1 ≤ d.day ∧
      d.day ≤ monthLength d.year d.month then
    some (daysBefore d.year + monthOffset d.year d.month + (d.day - 1 : Nat))
  else none

/-- The year that a day number falls into: an estimate from below, moved on at most twice. -/
def yearOf (number : Int) : Int :=
  let low := 1970 + number * 400 / 146097 - 1
  if number < daysBefore (low + 1) then low
  else if number < daysBefore (low + 2) then low + 1
  else low + 2

/-- The month that the `offset`-th day of a year falls into, tried from `month` downwards. -/
def monthOf (year : Int) (offset : Nat) : Nat → Nat
  | 0 => 1
  | month + 1 =>
    if monthOffset year (month + 1) ≤ offset then month + 1 else monthOf year offset month

/-- The date with the given day number. -/
def dateOf (number : Int) : Date :=
  let year := yearOf number
  let offset := (number - daysBefore year).toNat
  let month := monthOf year offset 12
  ⟨year, month, offset - monthOffset year month + 1⟩

/-- Digits padded with zeros on the left. -/
def padded (width n : Nat) : String :=
  let digits := toString n
  String.ofList (List.replicate (width - digits.length) '0') ++ digits

/-- The text of a year; years of other than four digits carry their sign. -/
def yearText (year : Int) : String :=
  if 0 ≤ year ∧ year ≤ 9999 then padded 4 year.toNat
  else (if year < 0 then "-" else "+") ++ padded 4 year.natAbs

/-- Year, month and day with hyphens. -/
def Date.write (d : Date) : String :=
  yearText d.year ++ "-" ++ padded 2 d.month ++ "-" ++ padded 2 d.day

/-- Seconds of a day. -/
def daySeconds : Int := 86400

/-- Milliseconds of a day. -/
def dayMillis : Int := 86400000

/-- The text of a day number, if the calendar covers it. -/
def writeDay? (number : Int) : Option String :=
  let d := dateOf number
  if covers d.year then some d.write else none

/-- The text of a moment in milliseconds, if the calendar covers it. -/
def writeMoment? (millis : Int) : Option String :=
  let within := (millis % dayMillis).toNat
  let seconds := within / 1000
  let fraction := within % 1000
  (writeDay? (millis / dayMillis)).map fun day =>
    day ++ "T" ++ padded 2 (seconds / 3600) ++ ":" ++ padded 2 (seconds / 60 % 60) ++ ":" ++
      padded 2 (seconds % 60) ++ if fraction = 0 then "" else "." ++ padded 3 fraction

/-- Which of the first `width` characters are digits. -/
def digitMask (width : Nat) (text : List Char) : List Bool :=
  (List.range width).map fun i => ((text[i]?).map Char.isDigit).getD false

/-- The number written by the digits at some positions. -/
def digitsAt (text : List Char) (positions : List Nat) : Nat :=
  Ieee.digitsValue (positions.filterMap (text[·]?))

/-- Whether exactly the given ones of the first `width` characters are digits. -/
def hasDigitsAt (width : Nat) (positions : List Nat) (text : List Char) : Bool :=
  digitMask width text == (List.range width).map (positions.contains ·)

/-- A date of at most ten bytes: eight digits, or hyphens with one or two digits for month and
day. -/
def readShort? (text : List Char) : Option Int :=
  let year : Int := digitsAt text [0, 1, 2, 3]
  let at? (mask : List Nat) (hyphen : Nat) (month day : List Nat) : Option Int :=
    if hasDigitsAt 10 mask text ∧ text[hyphen]? = some '-' then
      Date.number? ⟨year, digitsAt text month, digitsAt text day⟩
    else none
  if text[4]? = some '-' then
    at? [0, 1, 2, 3, 5, 6, 8, 9] 7 [5, 6] [8, 9] <|>
      at? [0, 1, 2, 3, 5, 6, 8] 7 [5, 6] [8] <|>
      at? [0, 1, 2, 3, 5, 7, 8] 6 [5] [7, 8] <|>
      at? [0, 1, 2, 3, 5, 7] 6 [5] [7]
  else if text.length = 8 ∧ text.all Char.isDigit then
    Date.number? ⟨year, digitsAt text [4, 5], digitsAt text [6, 7]⟩
  else none

/-- A moment in whole seconds and milliseconds. A leap second counts as the second before it, with a
thousand milliseconds more. -/
structure Moment where
  seconds : Int
  millis : Nat

/-- A time of day, if the clock shows it. -/
def timeOfDay? (hour minute second millis : Nat) : Option Moment :=
  if 24 ≤ hour ∨ 60 ≤ minute ∨ 60 < second then none
  else if second = 60 then some ⟨(hour * 60 + minute) * 60 + 59, 1000 + millis⟩
  else some ⟨(hour * 60 + minute) * 60 + second, millis⟩

/-- The time of day that a text begins with, and the rest: with colons and perhaps a fraction, or
six digits, after which two further characters hold no digit. -/
def readTime? (text : List Char) : Option (Moment × List Char) :=
  if hasDigitsAt 8 [0, 1, 3, 4, 6, 7] text ∧ text[2]? = some ':' ∧ text[5]? = some ':' then
    let at? (millis : Nat) (rest : List Char) : Option (Moment × List Char) :=
      (timeOfDay? (digitsAt text [0, 1]) (digitsAt text [3, 4]) (digitsAt text [6, 7]) millis).map
        (·, rest)
    match text.drop 8 with
    | '.' :: more =>
      let fraction := more.takeWhile Char.isDigit
      if fraction = [] then none
      else at? (Ieee.digitsValue ((fraction ++ ['0', '0']).take 3)) (more.drop fraction.length)
    | rest => at? 0 rest
  else if hasDigitsAt 8 [0, 1, 2, 3, 4, 5] text then
    (timeOfDay? (digitsAt text [0, 1]) (digitsAt text [2, 3]) (digitsAt text [4, 5]) 0).map
      (·, text.drop 6)
  else none

/-- The seconds by which a clock is ahead: a sign, then hours and perhaps minutes, of two digits
each. -/
def readOffset? (text : List Char) : Option Int :=
  let seconds? (digits : List Char) : Option Int :=
    let seconds := digitsAt digits [0, 1] * 3600 + digitsAt digits [2, 3] * 60
    if digits.all Char.isDigit ∧ seconds < 86400 then some seconds else none
  let digits? : List Char → Option Int
    | [a, b, ':', c, d] => seconds? [a, b, c, d]
    | [a, b, c, d] => seconds? [a, b, c, d]
    | [a, b] => seconds? [a, b]
    | _ => none
  match text with
  | '+' :: rest => digits? rest
  | '-' :: rest => (digits? rest).map (- ·)
  | _ => none

/-- How far the clock of a moment is ahead, read from what follows its time of day. -/
def readZone? : List Char → Option Int
  | [] | ['z'] | ['Z'] => some 0
  | text => readOffset? (text.dropWhile Text.isBlank)

/-- A moment: a full date, a `T` or a space, a time of day, and perhaps how far its clock is
ahead. -/
def readMoment? (text : List Char) : Option Moment := do
  let day ← if hasDigitsAt 10 [0, 1, 2, 3, 5, 6, 8, 9] text then readShort? (text.take 10) else none
  if text[10]? = some 'T' ∨ text[10]? = some 't' ∨ text[10]? = some ' ' then
    let (time, rest) ← readTime? (text.drop 11)
    let ahead ← readZone? rest
    some ⟨day * daySeconds + time.seconds - ahead, time.millis⟩
  else none

/-- Whether a text is short enough to be a date without a time. -/
def isShort (text : List Char) : Bool := (String.ofList text).utf8ByteSize ≤ 10

/-- The day number that a text stands for. -/
def readDay? (text : List Char) : Option Int :=
  if isShort text then readShort? text else (readMoment? text).map (·.seconds / daySeconds)

/-- The moment in milliseconds that a text stands for. -/
def readMillis? (text : List Char) : Option Int :=
  if isShort text then (readDay? text).map (· * dayMillis)
  else (readMoment? text).map fun m => m.seconds * 1000 + m.millis

end RelScript.Calendar
