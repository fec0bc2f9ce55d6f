import ReadThrough.Number.Binary64

/-!
# Shortest decimals

The written form of a binary64 number: of the decimals that are nearer to it
than to any other number of the format, those with the fewest digits, and of
these the nearest.

* `Shortest.digits` finds the digits and their power of ten.
* `Binary64.render` writes them: positionally where the point falls within the
  first sixteen places or up to five places before the digits, and with an
  exponent otherwise; always so that a reader tells the number from an integer.
-/

namespace ReadThrough

namespace Shortest

/-- The quotient of two natural numbers compared with another one. -/
def quotientLe (a b : Nat × Nat) : Bool := a.1 * b.2 ≤ b.1 * a.2

def quotientLt (a b : Nat × Nat) : Bool := a.1 * b.2 < b.1 * a.2

/-- The magnitudes that are read back as the number `m · 2 ^ e`: those between
two halfway points, and the points themselves where ties go to `m`. -/
structure Interval where
  low : Nat × Nat
  high : Nat × Nat
  closed : Bool

/-- The halfway points to the neighbours.  Below a power of two the next lower
number is twice as near. -/
def intervalOf (m : Nat) (e : Int) : Interval where
  low :=
    if m = Binary64.leastNormal && Binary64.minExponent < e then scale (4 * m - 1) (e - 2)
    else scale (4 * m - 2) (e - 2)
  high := scale (4 * m + 2) (e - 2)
  closed := m % 2 == 0
where
  scale (n : Nat) (e : Int) : Nat × Nat := Binary64.unscale n 1 (-e)

def Interval.contains (i : Interval) (x : Nat × Nat) : Bool :=
  if i.closed then quotientLe i.low x && quotientLe x i.high
  else quotientLt i.low x && quotientLt x i.high

/-- `n · 10 ^ k` as a quotient. -/
def decimal (n : Nat) (k : Int) : Nat × Nat :=
  match k with
  | .ofNat k => (n * Nat.pow 10 k, 1)
  | .negSucc k => (n, Nat.pow 10 (k + 1))

/-- The number of decimal digits. -/
def width (n : Nat) : Nat := (Nat.toDigits 10 n).length

/-- The greatest `k` with `10 ^ k` at most the quotient of positive numbers. -/
def magnitude (x : Nat × Nat) : Int :=
  let guess : Int := Int.ofNat (width x.1) - Int.ofNat (width x.2)
  if quotientLe (decimal 1 guess) x then guess else guess - 1

/-- The distance between two quotients. -/
def distance (a b : Nat × Nat) : Nat × Nat :=
  let l := a.1 * b.2
  let r := b.1 * a.2
  (max l r - min l r, a.2 * b.2)

/-- The multiple of `10 ^ k` nearest to `x` that lies in the interval, if one
does; of two equally near ones the even one. -/
def onGrid? (i : Interval) (x : Nat × Nat) (k : Int) : Option Nat :=
  let unit := decimal 1 k
  let below := x.1 * unit.2 / (x.2 * unit.1)
  let ds := [below, below + 1].filter fun n => i.contains (decimal n k)
  match ds with
  | [a, b] =>
    let da := distance (decimal a k) x
    let db := distance (decimal b k) x
    if quotientLt da db then some a
    else if quotientLt db da then some b
    else some (if a % 2 == 0 then a else b)
  | ds => ds.head?

/-- The digits, as a number, and their power of ten: try grids of one digit, of
two digits and so on, `places` of them. -/
def search (i : Interval) (x : Nat × Nat) : Nat → Int → Nat × Int
  | 0, k => ((x.1 * (decimal 1 k).2) / (x.2 * (decimal 1 k).1), k)
  | places + 1, k =>
    match onGrid? i x k with
    | some n => (n, k)
    | none => search i x places (k - 1)

/-- Drop the zeros at the end of the digits. -/
def trim : Nat → Nat × Int → Nat × Int
  | 0, d => d
  | fuel + 1, (n, k) => if n ≠ 0 && n % 10 == 0 then trim fuel (n / 10, k + 1) else (n, k)

/-- The shortest decimal of `m · 2 ^ e`, where `m` is positive. -/
def digits (m : Nat) (e : Int) : Nat × Int :=
  let x := Binary64.unscale m 1 (-e)
  trim 20 (search (intervalOf m e) x 17 (magnitude x))

end Shortest

/-- The written form. -/
def Binary64.render (x : Binary64) : String :=
  let sign := if x.negative then "-" else ""
  if x.isZero then sign ++ "0.0"
  else
    let (n, k) := Shortest.digits x.significand x.exponent
    sign ++ layout (Nat.toDigits 10 n) k
where
  zeros (n : Int) : List Char := List.replicate n.toNat '0'
  /-- Digits times a power of ten, with the decimal point or an exponent. -/
  layout (ds : List Char) (k : Int) : String :=
    let point : Int := Int.ofNat ds.length + k
    if 0 ≤ k && point ≤ 16 then String.ofList (ds ++ zeros k ++ ['.', '0'])
    else if 0 < point && point ≤ 16 then
      String.ofList (ds.take point.toNat ++ ['.'] ++ ds.drop point.toNat)
    else if -5 < point && point ≤ 0 then
      String.ofList (['0', '.'] ++ zeros (-point) ++ ds)
    else
      match ds with
      | [d] => String.ofList [d] ++ s!"e{point - 1}"
      | ds => String.ofList (ds.take 1 ++ ['.'] ++ ds.drop 1) ++ s!"e{point - 1}"

end ReadThrough
