import ReadThrough.Json.Numeral

/-!
# Reading JSON text

The strict grammar: no comments, no trailing commas, no blanks but space, tab and
line ends, no control characters in strings, and no halves of a surrogate pair on
their own.  How numbers are rounded, and whether there are objects that stand for a
JSON text in a string, is up to the caller, who gives the `Json.Rules`.

* `Json.readValue` reads one value of bounded depth and gives the rest of the text.
* `Json.readText` accepts a text that is one value and nothing else.
* `Json.parse?` does so for any depth and with numbers to the nearest; all objects
  are what they are.

A text that is refused is no JSON, a `Refusal.malformed`, or has a value of another
kind than is asked for, a `Refusal.mismatched`.  What comes first in the text decides.

Members and items are read by loops of a bounded number of rounds.  Every round
shortens the text, so that the length of a text is bound enough.
-/

namespace ReadThrough.Json

def isBlank (c : Char) : Bool := c == ' ' || c == '\n' || c == '\t' || c == '\r'

def skipBlanks (cs : List Char) : List Char := cs.dropWhile isBlank

/-- The text behind the word, if it starts with it. -/
def afterWord? : List Char → List Char → Option (List Char)
  | [], cs => some cs
  | w :: ws, c :: cs => if w == c then afterWord? ws cs else none
  | _ :: _, [] => none

/-! ## Strings -/

/-- The value of a hexadecimal digit. -/
def hexValue? (c : Char) : Option Nat :=
  if c.isDigit then some (c.toNat - '0'.toNat)
  else if 'a' ≤ c && c ≤ 'f' then some (c.toNat - 'a'.toNat + 10)
  else if 'A' ≤ c && c ≤ 'F' then some (c.toNat - 'A'.toNat + 10)
  else none

/-- A unit of four hexadecimal digits. -/
def hexUnit? (a b c d : Char) : Option Nat := do
  return 4096 * (← hexValue? a) + 256 * (← hexValue? b) + 16 * (← hexValue? c) + (← hexValue? d)

def isHighSurrogate (u : Nat) : Bool := 0xD800 ≤ u && u < 0xDC00

def isLowSurrogate (u : Nat) : Bool := 0xDC00 ≤ u && u < 0xE000

/-- The character behind a pair of surrogates. -/
def surrogatePair (high low : Nat) : Char :=
  Char.ofNat (0x10000 + 1024 * (high - 0xD800) + (low - 0xDC00))

/-- The character that a backslash and this letter stand for. -/
def shortEscape? (c : Char) : Option Char :=
  match c with
  | '"' | '\\' | '/' => some c
  | 'b' => some (Char.ofNat 8)
  | 'f' => some (Char.ofNat 12)
  | 'n' => some '\n'
  | 'r' => some '\r'
  | 't' => some '\t'
  | _ => none

/-- Read a string after its opening quote; `done` holds the characters so far,
the last one first. -/
def chars? (done : List Char) : List Char → Option (List Char × List Char)
  | [] => none
  | '"' :: rest => some (done.reverse, rest)
  | '\\' :: 'u' :: a :: b :: c :: d :: rest =>
    match hexUnit? a b c d with
    | none => none
    | some u =>
      if isHighSurrogate u then
        match rest with
        | '\\' :: 'u' :: a :: b :: c :: d :: rest =>
          match hexUnit? a b c d with
          | none => none
          | some v =>
            if isLowSurrogate v then chars? (surrogatePair u v :: done) rest else none
        | _ => none
      else if isLowSurrogate u then none
      else chars? (Char.ofNat u :: done) rest
  | '\\' :: c :: rest =>
    match shortEscape? c with
    | some c => chars? (c :: done) rest
    | none => none
  | c :: rest => if c.toNat < 32 || c == '\\' then none else chars? (c :: done) rest

def string? (cs : List Char) : Option (String × List Char) :=
  (chars? [] cs).map fun (s, rest) => (String.ofList s, rest)

/-! ## Rules and refusals -/

/-- Why a text is not accepted. -/
inductive Refusal where
  /-- The text is no JSON. -/
  | malformed
  /-- The text is JSON so far, but not what is asked for. -/
  | mismatched
  deriving DecidableEq

/-- Reads at the start of the text and gives the rest. -/
abbrev Reader (β : Type) : Type := List Char → Except Refusal (β × List Char)

/-- Refuse a text without the value. -/
def orMalformed {β : Type} : Option β → Except Refusal β
  | some v => .ok v
  | none => .error .malformed

/-- What the grammar leaves open. -/
structure Rules : Type where
  /-- The value of a number, unless it is too large. -/
  number? : Numeral → Option Json
  /-- The value of an embedded text, if objects can stand for one at all. -/
  embedded? : Option (String → Option Json)

/-- An object that stands for the JSON text in its only member gives it this name. -/
def embeddedName : String := "$serde_json::private::RawValue"

/-! ## Values -/

/-- Read a value that is neither array nor object, given the value of a number. -/
def scalar? (number? : Numeral → Option Json) (cs : List Char) : Option (Json × List Char) :=
  match cs with
  | 'n' :: rest => (afterWord? ['u', 'l', 'l'] rest).map (null, ·)
  | 't' :: rest => (afterWord? ['r', 'u', 'e'] rest).map (bool true, ·)
  | 'f' :: rest => (afterWord? ['a', 'l', 's', 'e'] rest).map (bool false, ·)
  | '"' :: rest => (string? rest).map fun (s, rest) => (str s, rest)
  | _ => do
    let (numeral, rest) ← Numeral.split? cs
    let v ← number? numeral
    return (v, rest)

/-- Refuse a value of another kind, if there is one that is neither array nor
object. -/
def refuseScalar (number? : Numeral → Option Json) (cs : List Char) : Refusal :=
  match scalar? number? cs with
  | some _ => .mismatched
  | none => .malformed

/-- Read the further items of an array, after at least one. -/
def itemsTail (item : Reader Json) : Nat → Reader (List Json)
  | 0, _ => .error .malformed
  | rounds + 1, cs =>
    match skipBlanks cs with
    | ']' :: rest => .ok ([], rest)
    | ',' :: rest => do
      let (v, rest) ← item rest
      let (vs, rest) ← itemsTail item rounds rest
      return (v :: vs, rest)
    | _ => .error .malformed

/-- Read an array after its opening bracket. -/
def arrayBody (rounds : Nat) (item : Reader Json) : Reader Json := fun cs =>
  match skipBlanks cs with
  | ']' :: rest => .ok (arr [], rest)
  | cs => do
    let (v, rest) ← item cs
    let (vs, rest) ← itemsTail item rounds rest
    return (arr (v :: vs), rest)

/-- Read a name and the colon behind it. -/
def memberName : Reader String := fun cs =>
  match skipBlanks cs with
  | '"' :: rest => do
    let (name, rest) ← orMalformed (string? rest)
    match skipBlanks rest with
    | ':' :: rest => return (name, rest)
    | _ => throw .malformed
  | _ => .error .malformed

/-- Read the further members of an object, after at least one. -/
def membersTail (item : Reader Json) : Nat → Reader (List (String × Json))
  | 0, _ => .error .malformed
  | rounds + 1, cs =>
    match skipBlanks cs with
    | '}' :: rest => .ok ([], rest)
    | ',' :: rest => do
      let (name, rest) ← memberName rest
      let (v, rest) ← item rest
      let (ms, rest) ← membersTail item rounds rest
      return ((name, v) :: ms, rest)
    | _ => .error .malformed

/-- Read an object that stands for a text, from the text on. -/
def embeddedBody (number? : Numeral → Option Json) (inner : String → Option Json) :
    Reader Json := fun cs =>
  match skipBlanks cs with
  | '"' :: rest => do
    let (text, rest) ← orMalformed (string? rest)
    match inner text with
    | none => throw .mismatched
    | some v =>
      match skipBlanks rest with
      | '}' :: rest => return (v, rest)
      | _ => throw .malformed
  | '[' :: _ | '{' :: _ => .error .mismatched
  | cs => .error (refuseScalar number? cs)

/-- Read an object after its opening brace.  Its first name tells whether it stands
for a text. -/
def objectBody (rules : Rules) (rounds : Nat) (item : Reader Json) : Reader Json := fun cs =>
  match skipBlanks cs with
  | '}' :: rest => .ok (obj [], rest)
  | cs => do
    let (name, rest) ← memberName cs
    match rules.embedded?.filter fun _ => name == embeddedName with
    | some inner => embeddedBody rules.number? inner rest
    | none => do
      let (v, rest) ← item rest
      let (ms, rest) ← membersTail item rounds rest
      return (ofMembers ((name, v) :: ms), rest)

/-- Read a value in which arrays and objects nest at most so deep; the rounds are for
each of them. -/
def readValue (rules : Rules) (rounds : Nat) : Nat → Reader Json
  | 0, cs => orMalformed (scalar? rules.number? (skipBlanks cs))
  | depth + 1, cs =>
    match skipBlanks cs with
    | '[' :: rest => arrayBody rounds (readValue rules rounds depth) rest
    | '{' :: rest => objectBody rules rounds (readValue rules rounds depth) rest
    | cs => orMalformed (scalar? rules.number? cs)

/-- Read a text that is one value in which arrays and objects nest at most so deep. -/
def readText (rules : Rules) (depth : Nat) (text : String) : Except Refusal Json := do
  let (v, rest) ← readValue rules text.length depth text.toList
  if (skipBlanks rest).isEmpty then return v else throw .malformed

/-- Read a text that is one value.  It cannot nest deeper than it is long. -/
def parse? (text : String) : Option Json :=
  (readText ⟨Numeral.nearest?, none⟩ text.length text).toOption

end ReadThrough.Json
