/-!
# Announcements of change

A source tells its subscribers what has become of its contents.  A `Change`
names either one object by its identity, or a run of positions with both ends
included, or nothing in particular.

* `Change.shiftsPositions` marks the changes after which an object may no longer
  be where it was.
* `Change.rangeAdded`, `rangeChanged` and `rangeDeleted` accept any bounds;
  `Change.between` builds one of them with its bounds in order.
-/

namespace ReadThrough

/-- What happened to the contents of a source whose objects are named by `ι`. -/
inductive Change (ι : Type) where
  /-- A new object exists, at a position that is not told. -/
  | objectAdded (id : ι)
  /-- An object changed where it stands. -/
  | objectChanged (id : ι)
  | objectDeleted (id : ι)
  /-- Objects were put in at these positions. -/
  | rangeAdded (first last : Nat)
  /-- The objects at these positions changed where they stand. -/
  | rangeChanged (first last : Nat)
  /-- The objects that stood at these positions are gone. -/
  | rangeDeleted (first last : Nat)
  | contentsChanged
  deriving DecidableEq

/-- A change without its particulars. -/
inductive Change.Kind where
  | objectAdded
  | objectChanged
  | objectDeleted
  | rangeAdded
  | rangeChanged
  | rangeDeleted
  | contentsChanged
  deriving DecidableEq

def Change.Kind.name : Change.Kind → String
  | objectAdded => "ObjectAdded"
  | objectChanged => "ObjectChanged"
  | objectDeleted => "ObjectDeleted"
  | rangeAdded => "RangeAdded"
  | rangeChanged => "RangeChanged"
  | rangeDeleted => "RangeDeleted"
  | contentsChanged => "ContentsChanged"

/-- The kind with this name. -/
def Change.Kind.ofName? (name : String) : Option Change.Kind :=
  [objectAdded, objectChanged, objectDeleted, rangeAdded, rangeChanged, rangeDeleted,
    contentsChanged].find? (·.name == name)

namespace Change

variable {ι : Type}

def kind : Change ι → Kind
  | objectAdded _ => .objectAdded
  | objectChanged _ => .objectChanged
  | objectDeleted _ => .objectDeleted
  | rangeAdded _ _ => .rangeAdded
  | rangeChanged _ _ => .rangeChanged
  | rangeDeleted _ _ => .rangeDeleted
  | contentsChanged => .contentsChanged

/-- The identity that the change names. -/
def id? : Change ι → Option ι
  | objectAdded id | objectChanged id | objectDeleted id => some id
  | _ => none

/-- The first and last position that the change names. -/
def range? : Change ι → Option (Nat × Nat)
  | rangeAdded first last | rangeChanged first last | rangeDeleted first last =>
    some (first, last)
  | _ => none

/-- Whether objects may stand elsewhere, or nowhere, after the change. -/
def shiftsPositions : Change ι → Bool
  | objectDeleted _ | rangeAdded _ _ | rangeDeleted _ _ | contentsChanged => true
  | objectAdded _ | objectChanged _ | rangeChanged _ _ => false

/-- The change built by `range` from two bounds given in either order. -/
def between (range : Nat → Nat → Change ι) (a b : Nat) : Change ι :=
  range (min a b) (max a b)

/-- The change built by `range` for a single position. -/
def single (range : Nat → Nat → Change ι) (position : Nat) : Change ι :=
  range position position

/-- A change as a line of a log. -/
def describe (showId : ι → String) : Change ι → String
  | objectAdded id => s!"ObjectAdded({showId id})"
  | objectChanged id => s!"ObjectChanged({showId id})"
  | objectDeleted id => s!"ObjectDeleted({showId id})"
  | rangeAdded first last => describeRange "RangeAdded" first last
  | rangeChanged first last => describeRange "RangeChanged" first last
  | rangeDeleted first last => describeRange "RangeDeleted" first last
  | contentsChanged => "ContentsChanged"
where
  describeRange (name : String) (first last : Nat) : String :=
    s!"{name} \x7b start: {first}, end: {last} \x7d"

end Change

end ReadThrough
