import ReadThrough.Number.Shortest

/-!
# Statistics of a cache

Counters of what a cache has done for its callers.  They only grow; how many
entries are cached now is put into a snapshot when it is taken.

* `Stats.hitRate` is the share of lookups served from the cache.
-/

namespace ReadThrough

structure Stats : Type where
  /-- Lookups served from the cache. -/
  hits : Nat
  /-- Lookups that had to go to the source. -/
  misses : Nat
  /-- Calls that the source answered. -/
  fetches : Nat
  /-- Objects in those answers. -/
  fetchedObjects : Nat
  /-- Entries removed to respect the capacity. -/
  evictions : Nat
  /-- Entries removed because they may be stale. -/
  invalidations : Nat
  /-- Entries cached when the snapshot was taken. -/
  entries : Nat
  deriving DecidableEq, Inhabited

namespace Stats

def zero : Stats := ⟨0, 0, 0, 0, 0, 0, 0⟩

def hit (s : Stats) : Stats := { s with hits := s.hits + 1 }

def miss (s : Stats) (n : Nat) : Stats := { s with misses := s.misses + n }

/-- Count an answer of the source with `objects` objects. -/
def fetch (s : Stats) (objects : Nat) : Stats :=
  { s with fetches := s.fetches + 1, fetchedObjects := s.fetchedObjects + objects }

def evict (s : Stats) : Stats := { s with evictions := s.evictions + 1 }

def invalidate (s : Stats) (n : Nat) : Stats := { s with invalidations := s.invalidations + n }

def withEntries (s : Stats) (n : Nat) : Stats := { s with entries := n }

def lookups (s : Stats) : Nat := s.hits + s.misses

/-- Hits by lookups, and zero before the first lookup. -/
def hitRate (s : Stats) : Binary64 :=
  if s.lookups = 0 then .zero else (Binary64.ratio? s.hits s.lookups).getD .zero

end Stats

end ReadThrough
