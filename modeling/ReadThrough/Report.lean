import ReadThrough.Stats

/-!
# Reports of statistics

A reporter looks at the statistics of a cache at regular intervals.  It reports
them, unless they are those of the report before.

* `Reporter.tick` is what happens when an interval has passed.
* `Reporter.ticks` lets several pass while nothing else happens.
-/

namespace ReadThrough

/-- How important a report is. -/
inductive Level where
  | debug
  | info
  deriving DecidableEq

def Level.name : Level → String
  | debug => "DEBUG"
  | info => "INFO"

inductive Report where
  | started (interval : Nat)
  | unchanged
  | changed (stats : Stats)

namespace Report

def level : Report → Level
  | unchanged => .debug
  | started _ | changed _ => .info

def message : Report → String
  | started interval => s!"Starting stats reporter with interval of {interval} seconds"
  | unchanged => "Cache stats unchanged"
  | changed _ => "Cache stats"

end Report

structure Reporter : Type where
  /-- The statistics that were last reported. -/
  reported? : Option Stats
  running : Bool

namespace Reporter

/-- A reporter that has reported its start and nothing else. -/
def start (interval : Nat) : Report × Reporter := (.started interval, ⟨none, true⟩)

/-- Look at the statistics. -/
def tick (r : Reporter) (stats : Stats) : List Report × Reporter :=
  if r.running then
    if r.reported? = some stats then ([.unchanged], r)
    else ([.changed stats], { r with reported? := some stats })
  else ([], r)

/-- Look at the same statistics several times. -/
def ticks (r : Reporter) (stats : Stats) : Nat → List Report × Reporter
  | 0 => ([], r)
  | n + 1 =>
    let (first, r) := r.tick stats
    let (rest, r) := r.ticks stats n
    (first ++ rest, r)

/-- Stop for good. -/
def stop (r : Reporter) : Reporter := { r with running := false }

end Reporter

end ReadThrough
