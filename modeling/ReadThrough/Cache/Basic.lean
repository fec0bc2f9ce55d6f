import ReadThrough.Change
import ReadThrough.Sizing
import ReadThrough.Stats
import ReadThrough.Table

/-!
# Caches

A `Cache ι α` keeps objects of a source that were read before, the number of
objects the source last reported, and counters.  It is a value of its own: what
it is attached to, and who listens to it, is not part of it.

* `Cache.keep` stores a fetched object and evicts what exceeds the capacity.
* `Cache.hit` serves a cached object.
* `Cache.apply` drops what a change makes stale.
* `Cache.audit` checks the bookkeeping.
-/

namespace ReadThrough

structure Cache (ι α : Type) : Type where
  table : Table ι α
  /-- The size the source last reported, unless it may have changed since. -/
  size? : Option Nat
  stats : Stats
  sizing : Sizing

namespace Cache

variable {ι α : Type}

def empty (sizing : Sizing) : Cache ι α := ⟨∅, none, .zero, sizing⟩

instance : Inhabited (Cache ι α) := ⟨empty default⟩

/-- The number of cached objects. -/
def length (c : Cache ι α) : Nat := c.table.size

def isEmpty (c : Cache ι α) : Bool := c.table.isEmpty

/-- Change the counters. -/
def count (c : Cache ι α) (f : Stats → Stats) : Cache ι α := { c with stats := f c.stats }

/-- The counters, with the number of cached objects. -/
def snapshot (c : Cache ι α) : Stats := c.stats.withEntries c.length

/-- The known positions of cached objects, in ascending order. -/
def positions (c : Cache ι α) : List Nat :=
  (c.table.entries.filterMap (·.position?)).mergeSort

/-- Drop every object and forget the size of the source. -/
def clear (c : Cache ι α) : Cache ι α :=
  let (dropped, table) := c.table.clear
  { c with table := table, size? := none, stats := c.stats.invalidate dropped }

/-- The state of the cache as a line of a log. -/
def describe (c : Cache ι α) (listeners : Nat) : String :=
  let size := match c.size? with
    | some n => s!"Some({n})"
    | none => "None"
  s!"ObjectCache \x7b config: CacheConfig \x7b max_cache_size: {c.sizing.capacity}, " ++
    s!"chunk_size: {c.sizing.chunk} \x7d, len: {c.length}, size: {size}, " ++
    s!"listeners: ListenerSet \x7b listeners: {listeners} \x7d \x7d"

/-- Serve the entry at `h`, which becomes the most recently used one. -/
def hit (c : Cache ι α) (h : Handle) : Except Fault α × Cache ι α :=
  let c := { c with table := c.table.promote h }.count .hit
  match c.table.entry? h with
  | some e => (.ok e.value, c)
  | none => (.error (.inconsistent .hitVanished), c)

variable [DecidableEq ι]

/-- Whether the object at a position, or with an identity, is cached. -/
def coversPosition (c : Cache ι α) (position : Nat) : Bool := c.table.covers position

def coversId (c : Cache ι α) (id : ι) : Bool := (c.table.ofId? id).isSome

/-! ## Storing -/

/-- Evict the least recently used entries beyond the capacity, at most `rounds`
of them. -/
def shed : Nat → Cache ι α → Cache ι α
  | 0, c => c
  | rounds + 1, c =>
    if c.sizing.capacity < c.table.size then
      match c.table.evict with
      | (some _, table) => shed rounds ({ c with table := table }.count .evict)
      | (none, _) => c
    else c

/-- Store an object under its identity, and its position if that is known. -/
def place (c : Cache ι α) (id : ι) (value : α) (position? : Option Nat) : Cache ι α :=
  let c := { c with table := (c.table.insert id value position?).2 }
  shed c.table.size c

/-- Store the object fetched for a position, unless it has no identity. -/
def keep (identify : α → Option ι) (c : Cache ι α) (value : α) (position : Nat) :
    Cache ι α :=
  match identify value with
  | some id => c.place id value (some position)
  | none => c

/-- Store the objects fetched for the positions from `start` on. -/
def keepAll (identify : α → Option ι) : Cache ι α → Nat → List α → Cache ι α
  | c, _, [] => c
  | c, start, v :: vs => keepAll identify (c.keep identify v start) (start + 1) vs

/-! ## Changes of the source -/

/-- Drop what a change makes stale.  Where objects may have shifted, everything
goes. -/
def apply (c : Cache ι α) (change : Change ι) : Cache ι α :=
  match change with
  | .objectAdded _ => { c with size? := none }
  | .objectChanged id =>
    match c.table.removeId id with
    | (some _, table) => { c with table := table }.count (·.invalidate 1)
    | (none, _) => c
  | .rangeChanged first last =>
    let (dropped, table) := c.table.removePositions first last
    { c with table := table }.count (·.invalidate dropped)
  | .objectDeleted _ | .rangeAdded _ _ | .rangeDeleted _ _ | .contentsChanged => c.clear

/-- Check that the table is well formed and no fuller than allowed. -/
def audit (c : Cache ι α) : Except Fault Unit :=
  match c.table.audit with
  | .error violation => .error (.inconsistent (.violated violation))
  | .ok () =>
    if c.sizing.capacity < c.length then
      .error (.inconsistent (.overfull c.length c.sizing.capacity))
    else .ok ()

end Cache

end ReadThrough
