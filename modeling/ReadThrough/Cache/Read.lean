import ReadThrough.Cache.Basic
import ReadThrough.Cache.Window
import ReadThrough.Source

/-!
# Reading through a cache

A read is served from the cache as far as possible and otherwise fetched from the
source in one call, and what was fetched is kept.  A read takes the cache and the
state of the source and gives both back with its answer, also when it fails.

* `Cache.get` fetches a window around a missing position.
* `Cache.getRange` serves the cached run at the start of the range and fetches
  all the rest.
* `Cache.getById` fetches one object, whose position stays unknown.
* `Source.through`: a cache over a source is a source again, so caches stack.
-/

namespace ReadThrough

namespace Cache

variable {σ ι α : Type} [DecidableEq ι]

/-- The size of the source; it is asked only if no size is known. -/
def getSize (src : Source σ ι α) (c : Cache ι α) (s : σ) :
    Except Fault Nat × Cache ι α × σ :=
  match c.size? with
  | some size => (.ok size, c, s)
  | none =>
    match src.size s with
    | (.ok size, s) => (.ok size, { c with size? := some size }, s)
    | (.error e, s) => (.error e, c, s)

/-- The window to fetch for a miss at `position`. -/
def missWindow (c : Cache ι α) (position size : Nat) : Window :=
  Window.around c.coversPosition position size c.sizing.chunk

/-- Ask the source for a run of objects; the answer must have the right length. -/
def fetchRange (src : Source σ ι α) (start length : Nat) (c : Cache ι α) (s : σ) :
    Except Fault (List α) × Cache ι α × σ :=
  match src.range start length s with
  | (.error e, s) => (.error e, c, s)
  | (.ok values, s) =>
    let c := c.count (·.fetch values.length)
    if values.length = length then (.ok values, c, s)
    else (.error (.inconsistent (.fetchLength length values.length)), c, s)

/-- Answer with the object just fetched for `position`.  It is taken from the
cache; only an object without an identity, which is never cached, is taken from
the fetched ones. -/
def answerFetched (identify : α → Option ι) (c : Cache ι α) (position : Nat)
    (fetched? : Option α) : Except Fault α × Cache ι α :=
  match c.table.atPosition? position with
  | some h =>
    let c := { c with table := c.table.promote h }
    match c.table.entry? h with
    | some e => (.ok e.value, c)
    | none => (.error (.inconsistent .fetchVanished), c)
  | none =>
    match fetched? with
    | some v =>
      if (identify v).isNone then (.ok v, c)
      else (.error (.inconsistent (.missingAfterFetch position)), c)
    | none => (.error (.inconsistent (.missingAfterFetch position)), c)

/-- Serve a position that is not cached. -/
def getMissing (src : Source σ ι α) (position size : Nat) (c : Cache ι α) (s : σ) :
    Except Fault α × Cache ι α × σ :=
  let w := c.missWindow position size
  match fetchRange src w.start w.length (c.count (·.miss 1)) s with
  | (.error e, c, s) => (.error e, c, s)
  | (.ok values, c, s) =>
    let identify := src.identify s
    let c := c.keepAll identify w.start values
    let (answer, c) := c.answerFetched identify position values[position - w.start]?
    (answer, c, s)

/-- The object at `position`. -/
def get (src : Source σ ι α) (position : Nat) (c : Cache ι α) (s : σ) :
    Except Fault α × Cache ι α × σ :=
  match getSize src c s with
  | (.error e, c, s) => (.error e, c, s)
  | (.ok size, c, s) =>
    match guardPosition position size with
    | .error e => (.error e, c, s)
    | .ok () =>
      match c.table.atPosition? position with
      | some h =>
        let (answer, c) := c.hit h
        (answer, c, s)
      | none => getMissing src position size c s

/-- Serve the cached objects at the start of a run of positions, up to the first
one that is not cached. -/
def serveRun : Nat → Nat → Cache ι α → Except Fault (List α) × Cache ι α
  | 0, _, c => (.ok [], c)
  | length + 1, start, c =>
    match c.table.atPosition? start with
    | none => (.ok [], c)
    | some h =>
      match c.hit h with
      | (.error e, c) => (.error e, c)
      | (.ok v, c) =>
        match serveRun length (start + 1) c with
        | (.error e, c) => (.error e, c)
        | (.ok vs, c) => (.ok (v :: vs), c)

/-- Fetch and keep the objects of a run, which are not served from the cache. -/
def getRest (src : Source σ ι α) (start length : Nat) (c : Cache ι α) (s : σ) :
    Except Fault (List α) × Cache ι α × σ :=
  match fetchRange src start length (c.count (·.miss length)) s with
  | (.error e, c, s) => (.error e, c, s)
  | (.ok values, c, s) => (.ok values, c.keepAll (src.identify s) start values, s)

/-- The objects at `length` positions from `start` on. -/
def getRange (src : Source σ ι α) (start length : Nat) (c : Cache ι α) (s : σ) :
    Except Fault (List α) × Cache ι α × σ :=
  match getSize src c s with
  | (.error e, c, s) => (.error e, c, s)
  | (.ok size, c, s) =>
    match guardRange start length size with
    | .error e => (.error e, c, s)
    | .ok () =>
      match serveRun length start c with
      | (.error e, c) => (.error e, c, s)
      | (.ok served, c) =>
        if served.length = length then (.ok served, c, s)
        else
          match getRest src (start + served.length) (length - served.length) c s with
          | (.error e, c, s) => (.error e, c, s)
          | (.ok rest, c, s) => (.ok (served ++ rest), c, s)

/-- The object with this identity, if the source has one. -/
def getById (src : Source σ ι α) (id : ι) (c : Cache ι α) (s : σ) :
    Except Fault (Option α) × Cache ι α × σ :=
  match c.table.ofId? id with
  | some h =>
    match c.hit h with
    | (.ok v, c) => (.ok (some v), c, s)
    | (.error e, c) => (.error e, c, s)
  | none =>
    let c := c.count (·.miss 1)
    match src.byId id s with
    | (.error e, s) => (.error e, c, s)
    | (.ok none, s) => (.ok none, c.count (·.fetch 0), s)
    | (.ok (some v), s) => (.ok (some v), (c.count (·.fetch 1)).place id v none, s)

end Cache

/-- The source that reads `src` through a cache. -/
def Source.through {σ ι α : Type} [DecidableEq ι] (src : Source σ ι α) :
    Source (Cache ι α × σ) ι α where
  size p := Cache.getSize src p.1 p.2
  range start length p := Cache.getRange src start length p.1 p.2
  byId id p := Cache.getById src id p.1 p.2
  identify p := src.identify p.2

end ReadThrough
