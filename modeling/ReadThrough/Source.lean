import ReadThrough.Bounds

/-!
# Sources of objects

A source is an ordered collection that is asked for its objects: how many there
are, which stand at a run of positions, which one has an identity.  Every answer
may be a fault, and asking may change the state `σ` of whatever stands behind
the source, so an answer comes with the state after it.

Nothing is assumed of the answers: they may contradict each other, and a source
may bring fewer or more objects than it was asked for.

A collection may also take updates.  What it does with one, and what it tells of it,
is up to its `Writer`.
-/

namespace ReadThrough

/-- How a collection with state `σ` answers for its objects `α`, named by `ι`. -/
structure Source (σ ι α : Type) : Type where
  size : σ → Except Fault Nat × σ
  /-- The objects at so many positions from a first one on. -/
  range : Nat → Nat → σ → Except Fault (List α) × σ
  byId : ι → σ → Except Fault (Option α) × σ
  /-- The identity of an object, unless it has none here. -/
  identify : σ → α → Option ι

/-- The source that cannot be reached. -/
def Source.unreachable {σ ι α : Type} (fault : Fault) : Source σ ι α where
  size s := (.error fault, s)
  range _ _ s := (.error fault, s)
  byId _ s := (.error fault, s)
  identify _ _ := none

/-- A value that is to be written to a source. -/
inductive Update (α : Type) where
  /-- It takes the place of the object at a position. -/
  | place (value : α) (position : Nat)
  /-- It takes the place of the object that has its identity. -/
  | renew (value : α)

/-- How a collection with state `σ` takes updates, with results `ρ`. -/
abbrev Writer (σ ρ α : Type) : Type := Update α → σ → ρ × σ

end ReadThrough
