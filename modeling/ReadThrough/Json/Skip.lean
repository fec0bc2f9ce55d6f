import ReadThrough.Json.Reader

/-!
# Passing over JSON values

A value that nobody asks for is checked for its form and otherwise passed over:
it may nest to any depth, hold a number of any size, and name half a surrogate
pair.  So more texts can be skipped than read.

* `Json.skip?` gives the text behind a value.

The brackets that are still open are kept in a list, so depth costs nothing.
-/

namespace ReadThrough.Json

/-- Pass over a string after its opening quote. -/
def skipString? : List Char → Option (List Char)
  | [] => none
  | '"' :: rest => some rest
  | '\\' :: 'u' :: a :: b :: c :: d :: rest =>
    if (hexUnit? a b c d).isSome then skipString? rest else none
  | '\\' :: c :: rest => if (shortEscape? c).isSome then skipString? rest else none
  | c :: rest => if c.toNat < 32 || c == '\\' then none else skipString? rest

/-- Pass over a value that is neither array nor object. -/
def skipScalar? (cs : List Char) : Option (List Char) :=
  match cs with
  | 'n' :: rest => afterWord? ['u', 'l', 'l'] rest
  | 't' :: rest => afterWord? ['r', 'u', 'e'] rest
  | 'f' :: rest => afterWord? ['a', 'l', 's', 'e'] rest
  | '"' :: rest => skipString? rest
  | _ => (Numeral.split? cs).map (·.2)

/-- An open bracket. -/
inductive Bracket where
  | square
  | curly

/-- Pass over a name and the colon behind it. -/
def skipName? (cs : List Char) : Option (List Char) :=
  match skipBlanks cs with
  | '"' :: rest =>
    match (skipString? rest).map skipBlanks with
    | some (':' :: rest) => some rest
    | _ => none
  | _ => none

/-- What comes next while passing over a value. -/
inductive Skipping where
  /-- A value. -/
  | value
  /-- A comma or the bracket that closes the innermost array or object. -/
  | separator

/-- Pass over the rest of a value within these open brackets. -/
def skipRest? : Nat → Skipping → List Bracket → List Char → Option (List Char)
  | 0, _, _, _ => none
  | _ + 1, .separator, [], cs => some cs
  | rounds + 1, .separator, .square :: opened, cs =>
    match skipBlanks cs with
    | ']' :: rest => skipRest? rounds .separator opened rest
    | ',' :: rest => skipRest? rounds .value (.square :: opened) rest
    | _ => none
  | rounds + 1, .separator, .curly :: opened, cs =>
    match skipBlanks cs with
    | '}' :: rest => skipRest? rounds .separator opened rest
    | ',' :: rest =>
      match skipName? rest with
      | some rest => skipRest? rounds .value (.curly :: opened) rest
      | none => none
    | _ => none
  | rounds + 1, .value, opened, cs =>
    match skipBlanks cs with
    | '[' :: rest =>
      match skipBlanks rest with
      | ']' :: rest => skipRest? rounds .separator opened rest
      | rest => skipRest? rounds .value (.square :: opened) rest
    | '{' :: rest =>
      match skipBlanks rest with
      | '}' :: rest => skipRest? rounds .separator opened rest
      | rest =>
        match skipName? rest with
        | some rest => skipRest? rounds .value (.curly :: opened) rest
        | none => none
    | cs =>
      match skipScalar? cs with
      | some rest => skipRest? rounds .separator opened rest
      | none => none

/-- The text behind the value it starts with.  Each round but the last uses up a
character, or goes from a value to a separator. -/
def skip? (cs : List Char) : Option (List Char) :=
  skipRest? (2 * cs.length + 2) .value [] cs

end ReadThrough.Json
