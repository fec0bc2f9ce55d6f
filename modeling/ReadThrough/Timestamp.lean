import ReadThrough.Number.Unsigned

/-!
# Timestamps

A `Timestamp` counts seconds and nanoseconds from the start of 1970, in UTC.

* `Timestamp.render` writes it as a date and a time of day, with no fraction or
  one of three, six or nine digits, the fewest that are exact.
* `Timestamp.isWritten` recognises the written forms of timestamps, which may
  have fractions of any length and any offset from UTC.
-/

namespace ReadThrough

structure Timestamp : Type where
  seconds : Int
  /-- Nanoseconds within the second; a second too many shows as second 60. -/
  nanos : Nat
  deriving DecidableEq, Inhabited

/-- A day of the calendar. -/
structure CivilDate : Type where
  year : Int
  month : Nat
  day : Nat
  deriving DecidableEq

namespace CivilDate

/-- The day so many days after the first of January 1970.  Years are counted from
March, so that a leap day ends its year, in eras of 400 years. -/
def ofDays (days : Int) : CivilDate :=
  let z := days + 719468
  let era := z / 146097
  let dayOfEra := (z % 146097).toNat
  let yearOfEra :=
    (dayOfEra - dayOfEra / 1460 + dayOfEra / 36524 - dayOfEra / 146096) / 365
  let dayOfYear := dayOfEra - (365 * yearOfEra + yearOfEra / 4 - yearOfEra / 100)
  let monthFromMarch := (5 * dayOfYear + 2) / 153
  let day := dayOfYear - (153 * monthFromMarch + 2) / 5 + 1
  let month := if monthFromMarch < 10 then monthFromMarch + 3 else monthFromMarch - 9
  let year := Int.ofNat yearOfEra + era * 400
  ⟨if month ≤ 2 then year + 1 else year, month, day⟩

def isLeap (year : Nat) : Bool := year % 4 == 0 && (year % 100 != 0 || year % 400 == 0)

/-- The number of days of a month. -/
def monthLength (year month : Nat) : Nat :=
  if month = 2 then (if isLeap year then 29 else 28)
  else if month = 4 || month = 6 || month = 9 || month = 11 then 30
  else 31

/-- Whether the calendar has this day. -/
def isValid (year month day : Nat) : Bool :=
  1 ≤ month && month ≤ 12 && 1 ≤ day && day ≤ monthLength year month

end CivilDate

namespace Timestamp

/-- A number with at least `width` digits. -/
def padded (width n : Nat) : String :=
  let ds := Nat.toDigits 10 n
  String.ofList (List.replicate (width - ds.length) '0' ++ ds)

/-- Four digits, and a sign in front of a year that is not one of four digits. -/
def renderYear (year : Int) : String :=
  if 0 ≤ year && year ≤ 9999 then padded 4 year.toNat
  else if year < 0 then "-" ++ padded 4 year.natAbs
  else "+" ++ padded 4 year.natAbs

def renderFraction (nanos : Nat) : String :=
  if nanos = 0 then ""
  else if nanos % 1000000 = 0 then "." ++ padded 3 (nanos / 1000000)
  else if nanos % 1000 = 0 then "." ++ padded 6 (nanos / 1000)
  else "." ++ padded 9 nanos

/-- The date and the time of day, without an offset. -/
def renderLocal (t : Timestamp) : String :=
  let date := CivilDate.ofDays (t.seconds / 86400)
  let second := (t.seconds % 86400).toNat
  let extra := t.nanos / 1000000000
  renderYear date.year ++ "-" ++ padded 2 date.month ++ "-" ++ padded 2 date.day ++ "T" ++
    padded 2 (second / 3600) ++ ":" ++ padded 2 (second / 60 % 60) ++ ":" ++
    padded 2 (second % 60 + extra) ++ renderFraction (t.nanos % 1000000000)

/-- The date and the time of day in UTC. -/
def render (t : Timestamp) : String := t.renderLocal ++ "Z"

/-- The date and the time of day, with the offset of UTC written out. -/
def renderWithOffset (t : Timestamp) : String := t.renderLocal ++ "+00:00"

/-- Whether one time is not before another. -/
def notBefore (t u : Timestamp) : Bool :=
  u.seconds < t.seconds || (u.seconds == t.seconds && u.nanos ≤ t.nanos)

/-! ## Recognising -/

/-- A number of exactly `width` digits at the start of the text. -/
def number? (width : Nat) (cs : List Char) : Option (Nat × List Char) :=
  let ds := cs.take width
  if ds.length = width && ds.all Char.isDigit then
    some (Unsigned.ofDigits ds, cs.drop width)
  else none

/-- The text behind a character that satisfies `p`. -/
def after? (p : Char → Bool) : List Char → Option (List Char)
  | c :: cs => if p c then some cs else none
  | [] => none

/-- The text behind a date. -/
def afterDate? (cs : List Char) : Option (List Char) := do
  let (year, cs) ← number? 4 cs
  let (month, cs) ← number? 2 (← after? (· == '-') cs)
  let (day, cs) ← number? 2 (← after? (· == '-') cs)
  if CivilDate.isValid year month day then some cs else none

/-- The text behind a time of day. -/
def afterTime? (cs : List Char) : Option (List Char) := do
  let (hour, cs) ← number? 2 cs
  let (minute, cs) ← number? 2 (← after? (· == ':') cs)
  let (second, cs) ← number? 2 (← after? (· == ':') cs)
  if hour < 24 && minute < 60 && second ≤ 60 then some cs else none

/-- The text behind a fraction, if one starts it. -/
def afterFraction? (cs : List Char) : Option (List Char) :=
  match cs with
  | '.' :: rest =>
    if (rest.takeWhile Char.isDigit).isEmpty then none else some (rest.dropWhile Char.isDigit)
  | _ => some cs

/-- The text behind an offset from UTC of less than a day. -/
def afterOffset? (cs : List Char) : Option (List Char) :=
  match cs with
  | 'Z' :: rest | 'z' :: rest => some rest
  | sign :: rest =>
    if sign == '+' || sign == '-' || sign == Char.ofNat 0x2212 then do
      let (hour, rest) ← number? 2 rest
      let (minute, rest) ← number? 2 (← after? (· == ':') rest)
      if hour < 24 && minute < 60 then some rest else none
    else none
  | [] => none

/-- Whether a text is a date, a time of day and an offset. -/
def isWritten (text : String) : Bool :=
  let rest? := do
    let cs ← afterDate? text.toList
    let cs ← after? (fun c => c == 'T' || c == 't' || c == ' ') cs
    let cs ← afterTime? cs
    let cs ← afterFraction? cs
    afterOffset? cs
  rest? == some []

end Timestamp

end ReadThrough
