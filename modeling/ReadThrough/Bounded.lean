import ReadThrough.Index
import ReadThrough.Recency

/-!
# Bounded caches

A `Bounded κ ν τ` maps keys to values and keeps them in order of use.  When a new
key takes it above its capacity, the least recently used pair is nominated: it
goes, unless an arbiter is installed and decides to retain it.  An arbiter has a
state of type `τ`, so its decisions may depend on earlier ones.

* `Bounded.insert` reports what happened: the value replaced, the pair shown to
  the arbiter, and whether a pair was evicted.
* `Bounded.toList` is the view: pairs, most recently used first.

Only evictions for capacity are counted as such, not removals by the caller.
-/

namespace ReadThrough

/-- What becomes of a nominated pair. -/
inductive Verdict where
  | evict
  | retain
  deriving DecidableEq

/-- Decides on nominated pairs, and remembers. -/
structure Arbiter (κ ν τ : Type) : Type where
  state : τ
  judge : τ → κ → ν → Verdict × τ

structure Bounded (κ ν τ : Type) : Type where
  order : Recency (κ × ν)
  index : Index κ Handle
  capacity : Nat
  arbiter? : Option (Arbiter κ ν τ)
  evictions : Nat

/-- What an insertion did besides storing its value. -/
structure Insertion (κ ν : Type) : Type where
  /-- The value stored under the key before. -/
  replaced? : Option ν
  /-- The pair that the arbiter was shown, and what it said. -/
  consulted? : Option ((κ × ν) × Verdict)
  /-- Whether the nominated pair went. -/
  evicted : Bool

namespace Bounded

variable {κ ν τ : Type}

/-- The empty cache; a capacity of zero is refused. -/
def ofCapacity? (capacity : Nat) (arbiter? : Option (Arbiter κ ν τ)) :
    Option (Bounded κ ν τ) :=
  if 0 < capacity then some ⟨∅, ∅, capacity, arbiter?, 0⟩ else none

def size (b : Bounded κ ν τ) : Nat := b.index.size

def isEmpty (b : Bounded κ ν τ) : Bool := b.size == 0

/-- The pairs from the most to the least recently used. -/
def toList (b : Bounded κ ν τ) : List (κ × ν) := b.order.toList

def setArbiter (b : Bounded κ ν τ) (arbiter? : Option (Arbiter κ ν τ)) : Bounded κ ν τ :=
  { b with arbiter? := arbiter? }

/-- The least recently used pair. -/
def oldest? (b : Bounded κ ν τ) : Option (κ × ν) := do
  let h ← b.order.oldest?
  b.order.get? h

def clear (b : Bounded κ ν τ) : Bounded κ ν τ := { b with order := ∅, index := ∅ }

variable [DecidableEq κ]

def handle? (b : Bounded κ ν τ) (k : κ) : Option Handle := b.index.get? k

def contains (b : Bounded κ ν τ) (k : κ) : Bool := b.index.contains k

/-- The value under a key, which does not count as a use of it. -/
def peek? (b : Bounded κ ν τ) (k : κ) : Option ν := do
  let h ← b.handle? k
  let p ← b.order.get? h
  return p.2

/-- Make a key the most recently used one, and change its value. -/
def touch (b : Bounded κ ν τ) (k : κ) (f : ν → ν) : Bounded κ ν τ :=
  match b.handle? k with
  | some h => { b with order := (b.order.promote h).modify h fun p => (p.1, f p.2) }
  | none => b

/-- The value under a key, which becomes the most recently used one. -/
def get (b : Bounded κ ν τ) (k : κ) : Option ν × Bounded κ ν τ :=
  (b.peek? k, b.touch k id)

/-- Change the value under a key, which becomes the most recently used one; gives
the new value. -/
def update (b : Bounded κ ν τ) (k : κ) (f : ν → ν) : Option ν × Bounded κ ν τ :=
  let b := b.touch k f
  (b.peek? k, b)

/-- Let the pair at `h` go, and count it. -/
def evictAt (b : Bounded κ ν τ) (h : Handle) : Bool × Bounded κ ν τ :=
  match b.order.erase h with
  | (some p, order) =>
    (true, { b with
      order := order
      index := b.index.erase p.1
      evictions := b.evictions + 1 })
  | (none, _) => (false, b)

/-- Nominate the least recently used pair. -/
def nominate (b : Bounded κ ν τ) : Insertion κ ν × Bounded κ ν τ :=
  match b.order.oldest? with
  | none => (⟨none, none, false⟩, b)
  | some h =>
    match b.arbiter?, b.order.get? h with
    | some arbiter, some p =>
      let (verdict, state) := arbiter.judge arbiter.state p.1 p.2
      let b := b.setArbiter (some { arbiter with state := state })
      let consulted := some (p, verdict)
      match verdict with
      | .evict =>
        let (evicted, b) := b.evictAt h
        (⟨none, consulted, evicted⟩, b)
      | .retain => (⟨none, consulted, false⟩, b)
    | _, _ =>
      let (evicted, b) := b.evictAt h
      (⟨none, none, evicted⟩, b)

/-- Store a value as the most recently used one. -/
def insert (b : Bounded κ ν τ) (k : κ) (v : ν) : Insertion κ ν × Bounded κ ν τ :=
  match b.handle? k with
  | some _ => (⟨b.peek? k, none, false⟩, b.touch k fun _ => v)
  | none =>
    let (h, order) := b.order.push (k, v)
    let b := { b with order := order, index := b.index.insert k h }
    if b.capacity < b.size then b.nominate else (⟨none, none, false⟩, b)

/-- Take out a key; gives its value. -/
def erase (b : Bounded κ ν τ) (k : κ) : Option ν × Bounded κ ν τ :=
  match b.handle? k with
  | none => (none, b)
  | some h =>
    let (p?, order) := b.order.erase h
    (p?.map (·.2), { b with order := order, index := b.index.erase k })

/-- Take out the least recently used pair. -/
def dropOldest (b : Bounded κ ν τ) : Option (κ × ν) × Bounded κ ν τ :=
  match b.order.dropOldest with
  | (some p, order) => (some p, { b with order := order, index := b.index.erase p.1 })
  | (none, _) => (none, b)

/-- The state of the cache as a line of a log. -/
def describe (b : Bounded κ ν τ) : String :=
  s!"BoundedCache \x7b capacity: {b.capacity}, len: {b.size}, " ++
    s!"notifier: {b.arbiter?.isSome}, evictions: {b.evictions} \x7d"

end Bounded

end ReadThrough
