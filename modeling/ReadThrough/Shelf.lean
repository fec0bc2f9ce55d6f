import ReadThrough.Change
import ReadThrough.Source

/-!
# Shelves

A `Shelf` holds its objects in a list and knows how to identify them; several
objects may share an identity or have none.  An edit gives its result, the shelf
after it, and the changes that it has to announce, in order.

* An edit that fails leaves the shelf alone and announces nothing.
* `Shelf.update` and `Shelf.removeId` act on the first object with the identity.
* `Shelf.source` answers from the shelf and never changes it.
-/

namespace ReadThrough

structure Shelf (ι α : Type) : Type where
  items : List α
  identify : α → Option ι

/-- The result of an edit, the shelf after it, and what it announces. -/
abbrev Edit (ι α β : Type) : Type := Except Fault β × Shelf ι α × List (Change ι)

namespace Shelf

variable {ι α : Type}

def size (s : Shelf ι α) : Nat := s.items.length

/-- The shelf with other objects, identified in the same way. -/
def withItems (s : Shelf ι α) (items : List α) : Shelf ι α := { s with items := items }

/-! ## Reading -/

def get (s : Shelf ι α) (position : Nat) : Except Fault α :=
  match s.items[position]? with
  | some v => .ok v
  | none => .error (.outOfBounds position s.size)

def range (s : Shelf ι α) (start length : Nat) : Except Fault (List α) :=
  match guardRange start length s.size with
  | .ok () => .ok ((s.items.drop start).take length)
  | .error e => .error e

section
variable [DecidableEq ι]

/-- The object has this identity. -/
def hasId (s : Shelf ι α) (id : ι) (v : α) : Bool := s.identify v = some id

def byId? (s : Shelf ι α) (id : ι) : Option α := s.items.find? (s.hasId id)

/-- Where the first object with this identity stands. -/
def position? (s : Shelf ι α) (id : ι) : Option Nat := s.items.findIdx? (s.hasId id)

def source : Source (Shelf ι α) ι α where
  size s := (.ok s.size, s)
  range start length s := (s.range start length, s)
  byId id s := (.ok (s.byId? id), s)
  identify s := s.identify

end

/-! ## Editing -/

/-- Add an object at the end; gives its position. -/
def push (s : Shelf ι α) (v : α) : Edit ι α Nat :=
  (.ok s.size, s.withItems (s.items ++ [v]), [.single .rangeAdded s.size])

/-- Put an object before the one at `position`, or at the end. -/
def insert (s : Shelf ι α) (position : Nat) (v : α) : Edit ι α Unit :=
  if position ≤ s.size then
    (.ok (), s.withItems (s.items.insertIdx position v), [.single .rangeAdded position])
  else (.error (.outOfBounds position s.size), s, [])

/-- Take out the object at `position`. -/
def removeAt (s : Shelf ι α) (position : Nat) : Edit ι α α :=
  match s.items[position]? with
  | some v => (.ok v, s.withItems (s.items.eraseIdx position), [.single .rangeDeleted position])
  | none => (.error (.outOfBounds position s.size), s, [])

/-- Hold these objects instead. -/
def replaceAll (s : Shelf ι α) (items : List α) : Edit ι α Unit :=
  (.ok (), s.withItems items, [.contentsChanged])

variable [DecidableEq ι]

/-- Take out the first object with this identity, if there is one. -/
def removeId (s : Shelf ι α) (id : ι) : Edit ι α (Option α) :=
  match s.position? id with
  | some position =>
    (.ok s.items[position]?, s.withItems (s.items.eraseIdx position), [.objectDeleted id])
  | none => (.ok none, s, [])

/-- What to announce when an object with identity `old?` at `position` gives way
to one with identity `new?`: the identities concerned, and the position too
unless it keeps its identity. -/
def replacement (position : Nat) (old? new? : Option ι) : List (Change ι) :=
  let atPosition := .single .rangeChanged position
  match old?, new? with
  | none, none => [atPosition]
  | some old, some new =>
    if old = new then [.objectChanged new]
    else [.objectChanged old, .objectChanged new, atPosition]
  | some old, none => [.objectChanged old, atPosition]
  | none, some new => [.objectChanged new, atPosition]

/-- Replace the object at `position`. -/
def updateAt (s : Shelf ι α) (v : α) (position : Nat) : Edit ι α Unit :=
  match s.items[position]? with
  | some old =>
    (.ok (), s.withItems (s.items.set position v),
      replacement position (s.identify old) (s.identify v))
  | none => (.error (.outOfBounds position s.size), s, [])

/-- Replace the first object that has the identity of `v`. -/
def update [ToString ι] (s : Shelf ι α) (v : α) : Edit ι α Unit :=
  match s.identify v with
  | none => (.error (.badRequest .unidentified), s, [])
  | some id =>
    match s.position? id with
    | some position => (.ok (), s.withItems (s.items.set position v), [.objectChanged id])
    | none => (.error (.badRequest (.unknownIdentity (toString id))), s, [])

/-- Take an update. -/
def write [ToString ι] (s : Shelf ι α) : Update α → Edit ι α Unit
  | .place v position => s.updateAt v position
  | .renew v => s.update v

end Shelf

end ReadThrough
