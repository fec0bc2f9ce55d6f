import ReadThrough.Cache.Read
import ReadThrough.Shelf

/-!
# A shelf with a cache in front

The smallest network: one shelf, and one cache that reads from it and hears of
every change before the edit returns.  Reads go through the cache; edits go to
the shelf.

* `Fronted.read` runs a read of the cache.
* `Fronted.edit` edits the shelf and lets the cache handle what it announces.
-/

namespace ReadThrough

structure Fronted (ι α : Type) : Type where
  shelf : Shelf ι α
  cache : Cache ι α

namespace Fronted

variable {ι α β : Type}

/-- A cache that has not read anything yet. -/
def new (shelf : Shelf ι α) (sizing : Sizing) : Fronted ι α := ⟨shelf, .empty sizing⟩

/-- Drop what the cache holds. -/
def clear (f : Fronted ι α) : Fronted ι α := { f with cache := f.cache.clear }

variable [DecidableEq ι]

/-- Run a read of the cache. -/
def read (f : Fronted ι α)
    (r : Source (Shelf ι α) ι α → Cache ι α → Shelf ι α → β × Cache ι α × Shelf ι α) :
    β × Fronted ι α :=
  let (answer, cache, shelf) := r Shelf.source f.cache f.shelf
  (answer, ⟨shelf, cache⟩)

def size (f : Fronted ι α) : Except Fault Nat × Fronted ι α := f.read Cache.getSize

def get (f : Fronted ι α) (position : Nat) : Except Fault α × Fronted ι α :=
  f.read fun src => Cache.get src position

def getRange (f : Fronted ι α) (start length : Nat) : Except Fault (List α) × Fronted ι α :=
  f.read fun src => Cache.getRange src start length

def getById (f : Fronted ι α) (id : ι) : Except Fault (Option α) × Fronted ι α :=
  f.read fun src => Cache.getById src id

/-- Edit the shelf; the cache handles each announced change in turn. -/
def edit (f : Fronted ι α) (e : Shelf ι α → Edit ι α β) : Except Fault β × Fronted ι α :=
  let (result, shelf, changes) := e f.shelf
  (result, ⟨shelf, changes.foldl Cache.apply f.cache⟩)

end Fronted

end ReadThrough
