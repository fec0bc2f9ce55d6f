/-!
# Windows of a miss

A position that is not cached is fetched together with its neighbours.  The
window around it reaches back up to half a chunk and forward up to half of the
rest, but never past the ends of the source and never over a position that is
cached already.

* `Window.around` grows the window from the position in both directions.
-/

namespace ReadThrough

/-- The positions from `start` up to, not including, `stop`. -/
structure Window : Type where
  start : Nat
  stop : Nat
  deriving DecidableEq

namespace Window

def length (w : Window) : Nat := w.stop - w.start

/-- Go back from `start` over at most `steps` positions that are not cached. -/
def reachBack (cached : Nat → Bool) : Nat → Nat → Nat
  | 0, start => start
  | _ + 1, 0 => 0
  | steps + 1, start + 1 =>
    if cached start then start + 1 else reachBack cached steps start

/-- Go forward from `stop` over at most `steps` positions that are not cached,
within a source of `size` objects. -/
def reachForward (cached : Nat → Bool) (size : Nat) : Nat → Nat → Nat
  | 0, stop => stop
  | steps + 1, stop =>
    if stop < size && !cached stop then reachForward cached size steps (stop + 1) else stop

/-- The window to fetch for a miss at `position`. -/
def around (cached : Nat → Bool) (position size chunk : Nat) : Window where
  start := reachBack cached (chunk / 2) position
  stop := reachForward cached size ((chunk - 1) / 2) (position + 1)

end Window

end ReadThrough
