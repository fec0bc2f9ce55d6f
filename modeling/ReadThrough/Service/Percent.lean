/-!
# Percent encoding

In a path or query a percent sign and two hexadecimal digits stand for a byte; a
percent sign that is followed by anything else stands for itself.  The bytes are
then read as UTF-8.

* `Percent.decodeText?` gives the text, unless the bytes are no UTF-8.
* `Percent.pairs` splits a query into names and values; a plus sign is a blank.
-/

namespace ReadThrough.Percent

def hexValue? (b : UInt8) : Option UInt8 :=
  if 48 ≤ b && b ≤ 57 then some (b - 48)
  else if 65 ≤ b && b ≤ 70 then some (b - 55)
  else if 97 ≤ b && b ≤ 102 then some (b - 87)
  else none

/-- The bytes that are meant. -/
def decode : List UInt8 → List UInt8
  | 37 :: a :: b :: rest =>
    match hexValue? a, hexValue? b with
    | some high, some low => (16 * high + low) :: decode rest
    | _, _ => 37 :: decode (a :: b :: rest)
  | b :: rest => b :: decode rest
  | [] => []

/-- The text that is meant, unless it is no UTF-8. -/
def decodeText? (cs : List Char) : Option String :=
  String.fromUTF8? ⟨(decode (String.ofList cs).toUTF8.toList).toArray⟩

/-! ## Queries -/

/-- The pieces between separators. -/
def splitAll (separator : Char) : List Char → List (List Char)
  | [] => [[]]
  | c :: cs =>
    if c == separator then [] :: splitAll separator cs
    else
      match splitAll separator cs with
      | piece :: pieces => (c :: piece) :: pieces
      | [] => [[c]]

/-- The text before the first separator, and the text behind it. -/
def splitFirst (separator : Char) (cs : List Char) : List Char × List Char :=
  (cs.takeWhile (· != separator), (cs.dropWhile (· != separator)).drop 1)

/-- A name or value of a query; absent if it is no UTF-8. -/
def decodeField? (cs : List Char) : Option String :=
  decodeText? (cs.map fun c => if c == '+' then ' ' else c)

/-- The names and values of a query, empty pieces left out. -/
def pairs (query : List Char) : List (Option String × Option String) :=
  ((splitAll '&' query).filter (!·.isEmpty)).map fun piece =>
    let (name, value) := splitFirst '=' piece
    (decodeField? name, decodeField? value)

end ReadThrough.Percent
