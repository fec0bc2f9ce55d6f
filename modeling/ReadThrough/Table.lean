import ReadThrough.Bounds
import ReadThrough.Index
import ReadThrough.Recency

/-!
# Keyed tables

A `Table ι α` keeps objects in order of use and finds each under two keys: its
identity, and its position where one is known.  An object reached through its
identity alone has no position.

* `Table.insert` refreshes the entry of a known identity; an entry that another
  one takes the position of stays, without a position.
* `Table.removePositions` looks at each position of a short range and at each
  bound position otherwise.
* `Table.audit` says what is wrong with the indexes of an arbitrary table.
-/

namespace ReadThrough

/-- A cached object under its keys. -/
structure Entry (ι α : Type) : Type where
  value : α
  id : ι
  /-- Absent where the object was reached through its identity only. -/
  position? : Option Nat
  deriving DecidableEq

/-- Entries in order of use, found by identity and by position. -/
structure Table (ι α : Type) : Type where
  order : Recency (Entry ι α)
  ids : Index ι Handle
  positions : Index Nat Handle

namespace Table

variable {ι α : Type}

def empty : Table ι α := ⟨∅, ∅, ∅⟩

instance : EmptyCollection (Table ι α) := ⟨empty⟩

instance : Inhabited (Table ι α) := ⟨empty⟩

def size (t : Table ι α) : Nat := t.ids.size

def isEmpty (t : Table ι α) : Bool := t.size == 0

/-- The entries from the most to the least recently used. -/
def entries (t : Table ι α) : List (Entry ι α) := t.order.toList

def entry? (t : Table ι α) (h : Handle) : Option (Entry ι α) := t.order.get? h

def atPosition? (t : Table ι α) (position : Nat) : Option Handle :=
  t.positions.get? position

/-- Whether the object at `position` is cached under it. -/
def covers (t : Table ι α) (position : Nat) : Bool := t.positions.contains position

/-- Make an entry the most recently used one. -/
def promote (t : Table ι α) (h : Handle) : Table ι α :=
  { t with order := t.order.promote h }

/-- Drop everything; also gives how many entries there were. -/
def clear (t : Table ι α) : Nat × Table ι α := (t.size, ∅)

variable [DecidableEq ι]

def ofId? (t : Table ι α) (id : ι) : Option Handle := t.ids.get? id

/-! ## Insertion -/

/-- Add an entry for an identity that is not there yet. -/
def enroll (t : Table ι α) (id : ι) (value : α) (position? : Option Nat) :
    Handle × Table ι α :=
  let (h, order) := t.order.push ⟨value, id, position?⟩
  (h, { t with order := order, ids := t.ids.insert id h })

/-- Give the entry at `h` a new value and, if one is known, a new position. -/
def refresh (t : Table ι α) (h : Handle) (value : α) (position? : Option Nat) :
    Table ι α :=
  let old? := (t.order.get? h).bind (·.position?)
  let order := t.order.modify h fun e =>
    { e with value := value, position? := position?.or e.position? }
  let positions := match old?, position? with
    | some old, some new =>
      if old ≠ new then t.positions.eraseBinding old h else t.positions
    | _, _ => t.positions
  { t with order := order.promote h, positions := positions }

/-- Let `position` lead to `h`, and take it from the entry it led to before. -/
def bind (t : Table ι α) (h : Handle) (position : Nat) : Table ι α :=
  let order := match t.positions.get? position with
    | some other =>
      if other ≠ h then t.order.modify other fun e => { e with position? := none }
      else t.order
    | none => t.order
  { t with order := order, positions := t.positions.insert position h }

/-- Add or refresh the entry for `id` as the most recently used one. -/
def insert (t : Table ι α) (id : ι) (value : α) (position? : Option Nat) :
    Handle × Table ι α :=
  let (h, t) := match t.ofId? id with
    | some h => (h, t.refresh h value position?)
    | none => t.enroll id value position?
  match position? with
  | some position => (h, t.bind h position)
  | none => (h, t)

/-! ## Removal -/

/-- Take the entry at `h` out of the indexes and the list. -/
def remove (t : Table ι α) (h : Handle) : Option (Entry ι α) × Table ι α :=
  match t.order.get? h with
  | none => (none, t)
  | some e =>
    let positions := match e.position? with
      | some position => t.positions.eraseBinding position h
      | none => t.positions
    (some e, ⟨(t.order.erase h).2, t.ids.erase e.id, positions⟩)

/-- Remove the least recently used entry. -/
def evict (t : Table ι α) : Option (Entry ι α) × Table ι α :=
  match t.order.oldest? with
  | some h => t.remove h
  | none => (none, t)

def removeId (t : Table ι α) (id : ι) : Option (Entry ι α) × Table ι α :=
  match t.ofId? id with
  | some h => t.remove h
  | none => (none, t)

/-- Remove the entries at these handles, one after another, and count those that
were there. -/
def removeAll (t : Table ι α) : List Handle → Nat × Table ι α
  | [] => (0, t)
  | h :: hs =>
    match t.remove h with
    | (some _, t) =>
      let (n, t) := t.removeAll hs
      (n + 1, t)
    | (none, t) => t.removeAll hs

/-- The handles bound from `first` to `last`, looked up position by position. -/
def walkRange (t : Table ι α) (first last : Nat) : List Handle :=
  (List.range' first (last + 1 - first)).filterMap t.atPosition?

/-- The handles bound from `first` to `last`, picked from all bound positions. -/
def scanRange (t : Table ι α) (first last : Nat) : List Handle :=
  (t.positions.pairs.filter fun p => first ≤ p.1 && p.1 ≤ last).map (·.2)

/-- Remove the entries whose position lies from `first` to `last`, and count
them.  The shorter of range and index is gone through. -/
def removePositions (t : Table ι α) (first last : Nat) : Nat × Table ι α :=
  t.removeAll <|
    if span first last ≤ t.positions.size then t.walkRange first last
    else t.scanRange first last

/-! ## Audit -/

/-- Both indexes lead from the keys of an entry back to it. -/
def auditEntry (t : Table ι α) (h : Handle) (e : Entry ι α) : Except Violation Unit :=
  if t.ids.get? e.id ≠ some h then .error .identityUnindexed
  else match e.position? with
    | none => .ok ()
    | some position =>
      if t.positions.get? position ≠ some h then .error (.positionUnindexed position)
      else .ok ()

/-- The entry that a position leads to claims this position. -/
def auditPosition (t : Table ι α) (position : Nat) (h : Handle) :
    Except Violation Unit :=
  match t.order.get? h with
  | some e => if e.position? = some position then .ok () else .error (.positionStale position)
  | none => .error (.positionStale position)

/-- Check that list and indexes belong together, and say what is wrong first. -/
def audit (t : Table ι α) : Except Violation Unit := do
  if t.order.size ≠ t.ids.size then
    throw (.count t.order.size t.ids.size)
  t.order.entries.forM fun (h, e) => t.auditEntry h e
  t.positions.pairs.forM fun (position, h) => t.auditPosition position h

end Table

end ReadThrough
