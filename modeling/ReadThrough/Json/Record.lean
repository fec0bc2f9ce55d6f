import ReadThrough.Json.Skip

/-!
# Records in JSON text

A record is a value with fields of known names.  It is written as an object, or
as an array of its fields in their order.  In an object, members of other names
are passed over, and a field that occurs twice is refused; an array may be
shorter than the record, but not longer.

* `Json.readRecord` reads a record, given how to read a field.
* `Json.anyField` reads a field that can be any value, with numbers by rounded steps
  and objects that stand for a text; arrays and objects nest at most
  `Json.maxDepth` deep.
* `Json.countField` reads a field that is a bounded count.
-/

namespace ReadThrough.Json

/-- How deep arrays and objects may nest, the record included. -/
def maxDepth : Nat := 127

variable {β : Type}

/-- Read the members from the next name on. -/
def readMembers (names : List String) (field : Reader β) :
    Nat → List (String × β) → Reader (List (String × β))
  | 0, _, _ => .error .malformed
  | rounds + 1, found, cs => do
    let (name, rest) ← match skipBlanks cs with
      | '"' :: rest => orMalformed (string? rest)
      | _ => .error .malformed
    if names.contains name && (found.lookup name).isSome then
      throw .mismatched
    let rest ← match skipBlanks rest with
      | ':' :: rest => .ok rest
      | _ => .error .malformed
    let (found, rest) ←
      if names.contains name then do
        let (v, rest) ← field rest
        pure ((name, v) :: found, rest)
      else do
        let rest ← orMalformed (skip? rest)
        pure (found, rest)
    match skipBlanks rest with
    | '}' :: rest => pure (found, rest)
    | ',' :: rest => readMembers names field rounds found rest
    | _ => throw .malformed

/-- Read the fields of these names from an array, behind its bracket or, if
`first` does not hold, behind a field. -/
def readItems (field : Reader β) (first : Bool) :
    List String → List (String × β) → Reader (List (String × β))
  | [], found, cs =>
    match skipBlanks cs with
    | ']' :: rest => .ok (found, rest)
    | _ => .error .malformed
  | name :: names, found, cs =>
    match skipBlanks cs with
    | ']' :: rest => .ok (found, rest)
    | ',' :: rest =>
      if first then .error .malformed
      else do
        let (v, rest) ← field rest
        readItems field false names ((name, v) :: found) rest
    | cs =>
      if first then do
        let (v, rest) ← field cs
        readItems field false names ((name, v) :: found) rest
      else .error .malformed

/-- Read a record with fields of these names; gives the fields found and the
rest of the text. -/
def readRecord (names : List String) (field : Reader β) : Reader (List (String × β)) := fun cs =>
  match skipBlanks cs with
  | '[' :: rest => readItems field true names [] rest
  | '{' :: rest =>
    match skipBlanks rest with
    | '}' :: rest => .ok ([], rest)
    | rest => readMembers names field rest.length.succ [] rest
  | cs => .error (refuseScalar Numeral.quick? cs)

/-! ## Fields -/

/-- The rules for values in records, where texts are embedded in one another at most
so deep. -/
def recordRules : Nat → Rules
  | 0 => ⟨Numeral.quick?, some fun _ => none⟩
  | levels + 1 =>
    ⟨Numeral.quick?, some fun text => (readText (recordRules levels) maxDepth text).toOption⟩

/-- A field of any value, within a record.  An embedded text is shorter than the text
around it, whose length is therefore bound enough for their levels, too. -/
def anyField : Reader Json := fun cs =>
  let bound := cs.length
  readValue (recordRules bound) bound (maxDepth - 1) cs

/-- A field that is a count below `limit`, or null. -/
def countField (limit : Nat) : Reader (Option Nat) := fun cs =>
  match skipBlanks cs with
  | '[' :: _ | '{' :: _ => .error .mismatched
  | cs =>
    match scalar? Numeral.quick? cs with
    | some (null, rest) => .ok (none, rest)
    | some (int (.ofNat n), rest) =>
      if n < limit then .ok (some n, rest) else .error .mismatched
    | some _ => .error .mismatched
    | none => .error .malformed

end ReadThrough.Json
