import ReadThrough.Bounds
import ReadThrough.Json.Basic
import ReadThrough.Number.Unsigned

/-!
# Numbers in JSON text

A number is an integer part without leading zeros, an optional fraction and an
optional power of ten.  Without the latter two it is an integer if it lies from
`-2 ^ 63` to `2 ^ 64 - 1` and is not written `-0`; every other number is a
binary64 one.

* `Numeral.split?` cuts the number off the text.
* `Numeral.nearest?` is its value, or the binary64 number nearest to that.
* `Numeral.quick?` looks at no more digits than fit a word and scales by a rounded
  power of ten.  Integers that are kept exactly are the same in both readings.

A number that is too large has no value.
-/

namespace ReadThrough

/-- The parts of a number as written. -/
structure Numeral : Type where
  negative : Bool
  whole : List Char
  /-- The digits after the point, if there is a point. -/
  fraction? : Option (List Char)
  /-- The sign and the digits of the power of ten, if one is written. -/
  power? : Option (Bool × List Char)

namespace Numeral

/-- The digits at the start of the text, and the rest. -/
def digitRun (cs : List Char) : List Char × List Char :=
  (cs.takeWhile Char.isDigit, cs.dropWhile Char.isDigit)

def splitFraction? (cs : List Char) : Option (Option (List Char) × List Char) :=
  match cs with
  | '.' :: rest =>
    let (ds, rest) := digitRun rest
    if ds.isEmpty then none else some (some ds, rest)
  | _ => some (none, cs)

def splitPower? (cs : List Char) : Option (Option (Bool × List Char) × List Char) :=
  match cs with
  | 'e' :: rest | 'E' :: rest =>
    let (negative, rest) := match rest with
      | '+' :: rest => (false, rest)
      | '-' :: rest => (true, rest)
      | _ => (false, rest)
    let (ds, rest) := digitRun rest
    if ds.isEmpty then none else some (some (negative, ds), rest)
  | _ => some (none, cs)

/-- The integer part: a single zero, or digits that do not start with zero. -/
def splitWhole? (cs : List Char) : Option (List Char × List Char) :=
  match digitRun cs with
  | ([], _) | ('0' :: _ :: _, _) => none
  | run => some run

/-- Cut a number off the start of the text. -/
def split? (cs : List Char) : Option (Numeral × List Char) := do
  let (negative, cs) := match cs with
    | '-' :: rest => (true, rest)
    | _ => (false, cs)
  let (whole, cs) ← splitWhole? cs
  let (fraction?, cs) ← splitFraction? cs
  let (power?, cs) ← splitPower? cs
  return (⟨negative, whole, fraction?, power?⟩, cs)

/-- The integer that the digits are, if it is kept exactly. -/
def integer? (s : Numeral) : Option Int :=
  let n := Unsigned.ofDigits s.whole
  match s.fraction?, s.power? with
  | none, none =>
    if s.negative then (if 0 < n && n ≤ wordLimit / 2 then some (-n) else none)
    else if n < wordLimit then some n else none
  | _, _ => none

/-- The power of ten. -/
def power (s : Numeral) : Int :=
  match s.power? with
  | some (true, ds) => -Int.ofNat (Unsigned.ofDigits ds)
  | some (false, ds) => Int.ofNat (Unsigned.ofDigits ds)
  | none => 0

/-- The value to the nearest number, unless it is too large. -/
def nearest? (s : Numeral) : Option Json :=
  match s.integer? with
  | some n => some (.int n)
  | none =>
    let ds := s.fraction?.getD []
    (Binary64.ofDecimal? s.negative (Unsigned.ofDigits (s.whole ++ ds))
      (s.power - ds.length)).map .float

/-- Append digits to a number as long as it stays below `wordLimit`; gives the
digits that are left. -/
def absorb (n : Nat) : List Char → Nat × List Char
  | [] => (n, [])
  | c :: cs =>
    let next := 10 * n + (c.toNat - '0'.toNat)
    if next < wordLimit then absorb next cs else (n, c :: cs)

/-- The value by rounded steps, unless it is too large.  A digit of the integer
part that is left counts as a zero, and one of the fraction not at all. -/
def quick? (s : Numeral) : Option Json :=
  match s.integer? with
  | some n => some (.int n)
  | none =>
    let ds := s.fraction?.getD []
    let (n, left) := absorb 0 s.whole
    let (n, dropped) := absorb n ds
    (Binary64.ofScaled? s.negative n
      (s.power + left.length - (ds.length - dropped.length))).map .float

end Numeral

end ReadThrough
