import ReadThrough.Cache.Basic
import ReadThrough.Source

/-!
# Writing through a cache

An update goes on to the source, and the cache does not keep anything of it: what it
holds only changes when the source announces what has become of its objects.

* `Cache.update` hands an update on.
* `Writer.through`: what takes updates over a cache takes them again, so caches stack.
-/

namespace ReadThrough

variable {σ ρ ι α : Type}

/-- Hand an update on to the source. -/
def Cache.update (below : Writer σ ρ α) (u : Update α) (c : Cache ι α) (s : σ) :
    ρ × Cache ι α × σ :=
  let (result, s) := below u s
  (result, c, s)

/-- The writer that takes updates through a cache. -/
def Writer.through (below : Writer σ ρ α) : Writer (Cache ι α × σ) ρ α :=
  fun u p => Cache.update below u p.1 p.2

end ReadThrough
