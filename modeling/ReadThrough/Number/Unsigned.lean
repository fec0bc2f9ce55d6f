/-!
# Unsigned decimals

The written form of a count, as accepted in settings, paths and queries: decimal
digits, leading zeros included, after at most one plus sign, and nothing else.
-/

namespace ReadThrough.Unsigned

/-- The number written by these digits, most significant first. -/
def ofDigits (digits : List Char) : Nat :=
  digits.foldl (fun n c => 10 * n + (c.toNat - '0'.toNat)) 0

/-- A nonempty run of digits. -/
def isDigits (cs : List Char) : Bool := !cs.isEmpty && cs.all Char.isDigit

/-- Read a number below `limit`. -/
def parse? (limit : Nat) (text : String) : Option Nat :=
  let digits := match text.toList with
    | '+' :: rest => rest
    | cs => cs
  if isDigits digits && ofDigits digits < limit then some (ofDigits digits) else none

end ReadThrough.Unsigned
