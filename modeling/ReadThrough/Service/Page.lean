import ReadThrough.Bounds
import ReadThrough.Fault
import ReadThrough.Json.Record
import ReadThrough.Service.Percent

/-!
# Pages of a listing

A `Page` asks for a part of a listing: from which position on, and how many
objects at most.  Both may be left out.

* `Page.flaw?` refuses pages that are too long.
* `Page.ofQuery?` reads a page from the query of a request, and `Page.ofText?`
  from JSON text.
-/

namespace ReadThrough

structure Page : Type where
  offset? : Option Nat
  limit? : Option Nat
  deriving DecidableEq

namespace Page

/-- The longest page that is served. -/
def longest : Nat := 500

/-- The length of a page that does not say how long it is. -/
def usual : Nat := 20

def offset (p : Page) : Nat := p.offset?.getD 0

def limit (p : Page) : Nat := p.limit?.getD usual

/-- What is wrong with the page. -/
def flaw? (p : Page) : Option RequestFlaw :=
  if longest < p.limit then some (.pageTooLong longest) else none

/-- The page that lacks everything. -/
def first : Page := ⟨none, none⟩

/-- The names of the two fields. -/
def fieldNames : List String := ["offset", "limit"]

/-- The page with these fields. -/
def ofFields (found : List (String × Option Nat)) : Page :=
  ⟨(found.lookup "offset").join, (found.lookup "limit").join⟩

/-- The page that a JSON text is. -/
def ofText? (text : String) : Option Page :=
  match Json.readRecord fieldNames (Json.countField wordLimit) text.toList with
  | .ok (found, rest) => if (Json.skipBlanks rest).isEmpty then some (ofFields found) else none
  | .error _ => none

/-! ## Queries -/

/-- The fields among the pairs of a query.  Each may occur once and must be a
number; pairs with other names are passed over. -/
def queryFields? :
    List (Option String × Option String) → List (String × Option Nat) →
      Option (List (String × Option Nat))
  | [], found => some found
  | (some name, value?) :: rest, found =>
    if fieldNames.contains name then
      if (found.lookup name).isSome then none
      else do
        let n ← Unsigned.parse? wordLimit (← value?)
        queryFields? rest ((name, some n) :: found)
    else queryFields? rest found
  | (none, _) :: rest, found => queryFields? rest found

/-- The page that a query asks for. -/
def ofQuery? (query : List Char) : Option Page :=
  (queryFields? (Percent.pairs query) []).map ofFields

end Page

end ReadThrough
