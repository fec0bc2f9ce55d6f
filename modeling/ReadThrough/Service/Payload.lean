import ReadThrough.Json.Record

/-!
# Payloads

A request that stores a value wraps it in a record with the one field `value`.

* `Payload.ofText` reads a text that is such a record and nothing else.
* `Payload.ofBody` reads a record at the start of a body; what follows it does not
  matter.
-/

namespace ReadThrough.Payload

open Json (Refusal)

/-- The value in the record at the start of the text, and the rest of the text. -/
def read : Json.Reader Json := fun cs => do
  let (found, rest) ← Json.readRecord ["value"] Json.anyField cs
  match found.lookup "value" with
  | some v => pure (v, rest)
  | none => throw .mismatched

def ofText (text : String) : Except Refusal Json := do
  let (v, rest) ← read text.toList
  if (Json.skipBlanks rest).isEmpty then pure v else throw .malformed

def ofBody (body : String) : Except Refusal Json := do
  let (v, _) ← read body.toList
  return v

end ReadThrough.Payload
