/-!
# Finite binary64 numbers

The finite numbers of the binary64 format, and what a reader of decimals and a
ratio need of their arithmetic: every operation has the exact result rounded once
to the nearest number of the format, ties going to the even neighbour.

* `Binary64.ofRatio?` rounds a quotient of natural numbers.
* `Binary64.ratio?` is the quotient of two counts, which are rounded first.
* `Binary64.ofDecimal?` is the number nearest to digits times a power of ten.
* `Binary64.ofScaled?` rounds digits and power of ten on their own and then their
  product, and may miss the nearest number by a little.
-/

namespace ReadThrough

/-- The number `± significand · 2 ^ exponent`.  Numbers of the format have a
significand below `2 ^ 53` and an exponent from `-1074` to `971`, the least one
that is possible for the value. -/
structure Binary64 : Type where
  negative : Bool
  significand : Nat
  exponent : Int
  deriving DecidableEq, Inhabited

namespace Binary64

/-- Significands are below this, which is `2 ^ 53`. -/
def significandLimit : Nat := 9007199254740992

/-- The least significand of a number that does not have the least exponent; this
is `2 ^ 52`. -/
def leastNormal : Nat := 4503599627370496

def minExponent : Int := -1074

def maxExponent : Int := 971

def zero : Binary64 := ⟨false, 0, minExponent⟩

def isZero (x : Binary64) : Bool := x.significand == 0

def neg (x : Binary64) : Binary64 := { x with negative := !x.negative }

/-- `num / den` to the nearest integer, a half to the even one. -/
def roundQuotient (num den : Nat) : Nat :=
  let q := num / den
  let r := num % den
  if den < 2 * r || (2 * r == den && q % 2 == 1) then q + 1 else q

/-- `num / (den · 2 ^ e)` as a quotient of natural numbers. -/
def unscale (num den : Nat) (e : Int) : Nat × Nat :=
  match e with
  | .ofNat k => (num, den <<< k)
  | .negSucc k => (num <<< (k + 1), den)

/-- The number nearest to `num / den`, unless it is too large for the format. -/
def ofRatio? (num den : Nat) : Option Binary64 :=
  if num = 0 then some zero
  else
    -- the quotient lies strictly between `2 ^ (l - 1)` and `2 ^ (l + 1)`
    let l : Int := Int.ofNat num.log2 - Int.ofNat den.log2
    let low := max (l - 53) minExponent
    let (n, d) := unscale num den low
    let e := if n / d < significandLimit then low else low + 1
    let (n, d) := unscale num den e
    let m := roundQuotient n d
    let (m, e) := if m = significandLimit then (leastNormal, e + 1) else (m, e)
    if maxExponent < e then none else some ⟨false, m, e⟩

/-- The number nearest to a count. -/
def ofNat? (n : Nat) : Option Binary64 := ofRatio? n 1

/-- The rounded product of magnitudes. -/
def mul? (x y : Binary64) : Option Binary64 :=
  let (n, d) := unscale (x.significand * y.significand) 1 (-(x.exponent + y.exponent))
  ofRatio? n d

/-- The rounded quotient of magnitudes. -/
def div? (x y : Binary64) : Option Binary64 :=
  if y.isZero then none
  else
    let (n, d) := unscale x.significand y.significand (y.exponent - x.exponent)
    ofRatio? n d

/-- The quotient of two counts, each rounded first. -/
def ratio? (a b : Nat) : Option Binary64 := do
  let x ← ofNat? a
  let y ← ofNat? b
  x.div? y

/-! ## Decimals -/

/-- The greatest power of ten that the format has a number for. -/
def topPower : Nat := 308

/-- All that is below ten to this power is nearest to zero. -/
def bottomPower : Int := -324

/-- The magnitude nearest to `digits · 10 ^ exponent`, unless it is too large for
the format.  The number of digits tells when there is nothing to compute. -/
def ofMagnitude? (digits : Nat) (exponent : Int) : Option Binary64 :=
  let power : Int := Int.ofNat (Nat.toDigits 10 digits).length + exponent
  if digits = 0 || power ≤ bottomPower then some zero
  else if Int.ofNat topPower + 1 < power then none
  else
    match exponent with
    | .ofNat k => ofRatio? (digits * Nat.pow 10 k) 1
    | .negSucc k => ofRatio? digits (Nat.pow 10 (k + 1))

/-- The number nearest to `± digits · 10 ^ exponent`, unless it is too large for
the format. -/
def ofDecimal? (negative : Bool) (digits : Nat) (exponent : Int) : Option Binary64 :=
  (ofMagnitude? digits exponent).map fun x => if negative then x.neg else x

/-! ## Decimals in steps -/

/-- The number nearest to a power of ten. -/
def powerOfTen? (k : Nat) : Option Binary64 := ofNat? (Nat.pow 10 k)

/-- Divide by ten to the power `k`, by the greatest power of ten at a time.  Zero
stays what it is; the count of steps is an upper bound. -/
def shrink? : Nat → Nat → Binary64 → Option Binary64
  | 0, _, x => some x
  | steps + 1, k, x => do
    if k ≤ topPower then x.div? (← powerOfTen? k)
    else if x.isZero then return x
    else shrink? steps (k - topPower) (← x.div? (← powerOfTen? topPower))

/-- The magnitude near `digits · 10 ^ exponent`, unless that is too large. -/
def scaled? (digits : Nat) (exponent : Int) : Option Binary64 := do
  let x ← ofNat? digits
  match exponent with
  | .ofNat k =>
    if k ≤ topPower then x.mul? (← powerOfTen? k)
    else if x.isZero then return x
    else none
  | .negSucc k => shrink? (k / topPower + 2) (k + 1) x

/-- The number near `± digits · 10 ^ exponent` that is found by rounding the
digits, the power of ten and what comes of them, unless it is too large. -/
def ofScaled? (negative : Bool) (digits : Nat) (exponent : Int) : Option Binary64 :=
  (scaled? digits exponent).map fun x => if negative then x.neg else x

end Binary64

end ReadThrough
