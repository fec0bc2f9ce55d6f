import ReadThrough.Fault

/-!
# Sizes of a cache

A cache keeps at most `capacity` objects and fetches up to `chunk` of them at
once.  A fetch is never empty and always fits into the cache; both facts are
part of the type.
-/

namespace ReadThrough

structure Sizing : Type where
  capacity : Nat
  chunk : Nat
  chunk_pos : 0 < chunk
  chunk_le : chunk ≤ capacity
  deriving DecidableEq

namespace Sizing

/-- The sizes, if a cache can have them. -/
def ofCounts (capacity chunk : Nat) : Except Fault Sizing :=
  if pos : 0 < chunk then
    if le : chunk ≤ capacity then .ok ⟨capacity, chunk, pos, le⟩
    else .error (.badSizing (.chunkExceedsCapacity chunk capacity))
  else .error (.badSizing .emptyChunk)

def standard : Sizing := ⟨1000, 50, by decide, by decide⟩

instance : Inhabited Sizing := ⟨standard⟩

theorem capacity_pos (s : Sizing) : 0 < s.capacity :=
  Nat.lt_of_lt_of_le s.chunk_pos s.chunk_le

end Sizing

end ReadThrough
