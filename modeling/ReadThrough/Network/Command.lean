import ReadThrough.Shelf
import ReadThrough.Sizing
import ReadThrough.Stats

/-!
# What is asked of a network

A network consists of named nodes: shelves, caches stacked over them, and relays
that only pass announcements on.  An `Operation` is asked of one node; a `Command`
is an operation with its node, or makes or drops a node.  Commands are data, so a
listener can be given some to perform when it is called.

* `Call` is what a shelf is asked by whoever reads through to it.
* `Trouble` is what goes wrong with the answers of a shelf.
* `Outcome` is what a command gives.
-/

namespace ReadThrough

/-- What a shelf is asked for. -/
inductive Call (ι α : Type) where
  | size
  | get (position : Nat)
  | range (start length : Nat)
  | byId (id : ι)
  | updateAt (value : α) (position : Nat)
  | update (value : α)

/-- The call that an update is. -/
def Update.call {ι α : Type} : Update α → Call ι α
  | .place v position => .updateAt v position
  | .renew v => .update v

/-- What goes wrong when a shelf is asked. -/
structure Trouble (α : Type) : Type where
  /-- Every call fails with this message and cause. -/
  offline? : Option (String × Option String)
  /-- So many objects are missing at the end of a range. -/
  short : Nat
  /-- These objects follow after a range. -/
  extra : List α
  /-- The size told instead of the true one. -/
  size? : Option Nat
  /-- The answer to every question for an identity. -/
  byId? : Option (Option α)

namespace Trouble

variable {α : Type}

def none : Trouble α := ⟨.none, 0, [], .none, .none⟩

instance : Inhabited (Trouble α) := ⟨none⟩

/-- The fault with which every call fails. -/
def fault? (t : Trouble α) : Option Fault :=
  t.offline?.map fun (message, cause?) => .unavailable message cause?

/-- A range as it arrives. -/
def distort (t : Trouble α) (values : List α) : List α :=
  values.take (values.length - t.short) ++ t.extra

end Trouble

/-- What one node is asked to do. -/
inductive Operation (ι α : Type) where
  | subscribe (script : String)
  | unsubscribe (script : String)
  | announce (change : Change ι)
  | length
  | isEmpty
  | describe
  | size
  | get (position : Nat)
  | range (start length : Nat)
  | byId (id : ι)
  | updateAt (value : α) (position : Nat)
  | update (value : α)
  | identify (value : α)
  -- of shelves
  | items
  | push (value : α)
  | insert (position : Nat) (value : α)
  | removeAt (position : Nat)
  | removeId (id : ι)
  | replaceAll (items : List α)
  | subscribers
  | trouble (trouble : Trouble α)
  -- of caches
  | coversPosition (position : Nat)
  | coversId (id : ι)
  | clear
  | audit
  | stats
  | sizing
  | attach (below : String)
  | sizeBelow

/-- What a network is asked to do. -/
inductive Command (ι α : Type) where
  | addShelf (name : String) (items : List α) (identify : α → Option ι)
  | addCache (name below : String) (capacity chunk : Nat)
  | addRelay (name : String)
  /-- Make a listener that performs `run` at each of its first `times` calls, or
  fails at every call. -/
  | addScript (name : String) (run : List (Command ι α)) (times : Nat) (failing : Bool)
  | drop (name : String)
  | ask (name : String) (operation : Operation ι α)

/-- What a command gives. -/
inductive Outcome (ι α : Type) where
  | done
  | flag (b : Bool)
  | number (n : Nat)
  | text (s : String)
  | object (value : α)
  | object? (value? : Option α)
  | objects (values : List α)
  | identity? (id? : Option ι)
  | stats (stats : Stats)
  | sizing (sizing : Sizing)
  | failed (fault : Fault)
  /-- A listener failed while the command was carried out. -/
  | broken (message : String)
  /-- There is no node of this name, or it is of another kind. -/
  | misdirected (name : String)

/-- The outcome of a result that is a fault or else shown by `f`. -/
def Outcome.ofExcept {ι α β : Type} (f : β → Outcome ι α) : Except Fault β → Outcome ι α
  | .ok b => f b
  | .error e => failed e

end ReadThrough
