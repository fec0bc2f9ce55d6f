import ReadThrough.Json.Basic
import ReadThrough.Timestamp

/-!
# Documents

A `Document` is a JSON value with a number that identifies it and the time of its
last change.

* `Document.revised` changes the value and the time, never the number.
* `Document.json` and `Document.placed` are the records that describe a document.
-/

namespace ReadThrough

structure Document : Type where
  id : Nat
  value : Json
  updatedAt : Timestamp
  deriving Inhabited

namespace Document

/-- The document with another value, changed now. -/
def revised (d : Document) (value : Json) (now : Timestamp) : Document := ⟨d.id, value, now⟩

/-- The fields of the record of a document. -/
def fields (d : Document) : List (String × Json) :=
  [("id", .nat d.id), ("value", d.value), ("updated_at", .str d.updatedAt.render)]

/-- The record of a document. -/
def json (d : Document) : Json := .obj d.fields

/-- The record of a document with its position, where that is known. -/
def placed (d : Document) (position? : Option Nat) : Json :=
  .obj ((position?.map fun p => ("position", Json.nat p)).toList ++ d.fields)

/-- Documents with the numbers from one to `count`, each named after its number. -/
def seeds (count : Nat) (now : Timestamp) : List Document :=
  (List.range count).map fun i =>
    ⟨i + 1, .obj [("name", .str s!"object-{i + 1}")], now⟩

end Document

end ReadThrough
