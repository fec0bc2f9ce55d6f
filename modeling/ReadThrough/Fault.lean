/-!
# Causes of failure

Every operation of the library that can fail says why with a `Fault`.  A fault
names its cause by data; the sentence shown to a caller is computed from it in
one place, `Fault.message`.

* `Violation` is what an audit of a keyed table can find wrong with it.
* `Inconsistency`, `RequestFlaw`, `SizingFlaw` and `Misuse` refine the faults
  that have several causes.  Each has one constructor `other` for a cause that a
  caller words itself.
-/

namespace ReadThrough

/-- What is wrong with the bookkeeping of a keyed table. -/
inductive Violation where
  /-- The recency list and the identity index differ in size. -/
  | count (listed indexed : Nat)
  /-- An entry is not found under its own identity. -/
  | identityUnindexed
  /-- An entry is not found under its own position. -/
  | positionUnindexed (position : Nat)
  /-- A position leads to no entry that claims it. -/
  | positionStale (position : Nat)
  deriving DecidableEq

def Violation.message : Violation → String
  | .count listed indexed =>
    s!"list holds {listed} entries but identity index holds {indexed}"
  | .identityUnindexed => "list entry missing from identity index"
  | .positionUnindexed p => s!"entry at position {p} not indexed"
  | .positionStale p => s!"position index {p} points at a stale entry"

/-- How a cache can find itself, or the answers of its source, inconsistent. -/
inductive Inconsistency where
  | violated (violation : Violation)
  /-- More entries are cached than the capacity allows. -/
  | overfull (entries capacity : Nat)
  /-- A bulk fetch brought another number of objects than it asked for. -/
  | fetchLength (expected got : Nat)
  /-- The requested position is not cached although it was just fetched. -/
  | missingAfterFetch (position : Nat)
  /-- A position or identity is indexed but its entry is gone. -/
  | hitVanished
  | fetchVanished
  | other (detail : String)
  deriving DecidableEq

def Inconsistency.message : Inconsistency → String
  | .violated v => v.message
  | .overfull entries capacity => s!"{entries} entries exceed capacity {capacity}"
  | .fetchLength expected got =>
    s!"source returned {got} objects for a fetch of {expected}"
  | .missingAfterFetch p => s!"object at position {p} missing after fetch"
  | .hitVanished => "indexed entry vanished from MRU list"
  | .fetchVanished => "fetched entry vanished"
  | .other detail => detail

/-- What is wrong with a request. -/
inductive RequestFlaw where
  /-- The value carries no identity by which the source could find it. -/
  | unidentified
  /-- No stored object has the value's identity. -/
  | unknownIdentity (identity : String)
  /-- A page longer than the largest one served. -/
  | pageTooLong (longest : Nat)
  | other (detail : String)
  deriving DecidableEq

def RequestFlaw.message : RequestFlaw → String
  | .unidentified => "Value has no identity in this source"
  | .unknownIdentity identity => s!"No object with identity {identity}"
  | .pageTooLong longest => s!"Limit exceeds maximum of {longest}"
  | .other detail => detail

/-- What is wrong with a pair of cache sizes. -/
inductive SizingFlaw where
  | emptyChunk
  | chunkExceedsCapacity (chunk capacity : Nat)
  | other (detail : String)
  deriving DecidableEq

def SizingFlaw.message : SizingFlaw → String
  | .emptyChunk => "chunk size must be at least 1"
  | .chunkExceedsCapacity chunk capacity =>
    s!"chunk size {chunk} exceeds max cache size {capacity}"
  | .other detail => detail

/-- A release of a lock mode that the releasing thread does not hold. -/
inductive Misuse where
  | notReading
  | notWriting
  | other (detail : String)
  deriving DecidableEq

def Misuse.message : Misuse → String
  | .notReading => "release_read called by a thread holding no read lock"
  | .notWriting => "release_write called by a thread that is not the writer"
  | .other detail => detail

/-- Why an operation failed.  An identity that is simply not there is no
failure of a lookup: `absent` arises only where a service has promised one. -/
inductive Fault where
  /-- The source could not be reached. -/
  | unavailable (message : String) (cause? : Option String)
  | outOfBounds (position size : Nat)
  | rangeOutOfBounds (start length size : Nat)
  | absent (detail : String)
  | badRequest (flaw : RequestFlaw)
  | badSizing (flaw : SizingFlaw)
  | lockMisuse (misuse : Misuse)
  | inconsistent (what : Inconsistency)
  deriving DecidableEq

namespace Fault

/-- The sentence shown to a caller. -/
def message : Fault → String
  | unavailable text _ => s!"Source unavailable: {text}"
  | outOfBounds position size => s!"Position {position} out of bounds for size {size}"
  | rangeOutOfBounds start length size =>
    s!"Range of {length} at {start} out of bounds for size {size}"
  | absent detail => s!"Not found: {detail}"
  | badRequest flaw => s!"Invalid request: {flaw.message}"
  | badSizing flaw => s!"Invalid configuration: {flaw.message}"
  | lockMisuse misuse => s!"Lock misuse: {misuse.message}"
  | inconsistent what => s!"Internal error: {what.message}"

/-- The fault that led to this one, where the source reported it. -/
def cause? : Fault → Option String
  | unavailable _ cause? => cause?
  | _ => none

/-- Only an unreachable source may answer when asked again. -/
def isRetryable : Fault → Bool
  | unavailable _ _ => true
  | _ => false

end Fault

end ReadThrough
